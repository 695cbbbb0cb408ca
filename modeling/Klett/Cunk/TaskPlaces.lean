import Klett.Cunk.ThreadPool

namespace Klett.Cunk.ThreadPool

open Klett.Lib

section Places

variable {σ κ : Type} {w g : ℕ}

inductive Place (σ : Type) where
  | submitter (i : σ)
  | queue (v : ℕ)
  | global
  | worker (k : ℕ)
  | executed
  | dropped
  deriving DecidableEq

/-- Where a task may be once a queue has taken it. -/
def Place.inside : Place σ → Prop
  | .submitter _ | .dropped => False
  | .queue _ | .global | .worker _ | .executed => True

def Submitter.tasks : Submitter κ → List (Task κ)
  | .check task | .ticket task | .push task _ | .overflow task => [task]
  | .idle | .notify => []

def Worker.tasks : Worker κ → List (Task κ)
  | .call task _ => [task]
  | _ => []

def holding (s : State σ κ w g) : Place σ → List (Task κ)
  | .submitter i => (s.submitters i).tasks
  | .queue v => (s.queues v).items
  | .global => s.global.items
  | .worker k => (s.workers k).tasks
  | .executed => s.executed
  | .dropped => s.dropped

variable [DecidableEq σ] {s : State σ κ w g} {i : σ} {k v : ℕ} {p : Submitter κ} {u : Worker κ} {task : Task κ}

@[simp] theorem holding_atSubmitter :
    holding (s.atSubmitter i p) = Function.update (holding s) (.submitter i) p.tasks := by
  funext r
  cases r with
  | submitter j => by_cases hj : j = i <;> simp [holding, State.atSubmitter, hj]
  | queue | global | worker | executed | dropped => rfl

@[simp] theorem holding_atWorker : holding (s.atWorker k u) = Function.update (holding s) (.worker k) u.tasks := by
  funext r
  cases r with
  | worker j => by_cases hj : j = k <;> simp [holding, State.atWorker, hj]
  | submitter | queue | global | executed | dropped => rfl

@[simp] theorem holding_withQueue {q : Fifo (Task κ) w} :
    holding (s.withQueue v q) = Function.update (holding s) (.queue v) q.items := by
  funext r
  cases r with
  | queue j => by_cases hj : j = v <;> simp [holding, State.withQueue, hj]
  | submitter | global | worker | executed | dropped => rfl

@[simp] theorem holding_withGlobal {q : Fifo (Task κ) g} :
    holding (s.withGlobal q) = Function.update (holding s) .global q.items := by
  funext r
  cases r <;> rfl

omit [DecidableEq σ] in
@[simp] theorem holding_accept : holding (s.accept task) = holding s := by
  funext r
  cases r <;> rfl

@[simp] theorem holding_execute :
    holding (s.execute task) = Function.update (holding s) .executed (s.executed ++ [task]) := by
  funext r
  cases r <;> rfl

@[simp] theorem holding_drop :
    holding (s.drop task) = Function.update (holding s) .dropped (s.dropped ++ [task]) := by
  funext r
  cases r <;> rfl

end Places

section Invariants

variable {σ κ : Type} {w g : ℕ} (n : ℕ)

/-- Every submitted task is at one place. A task that was accepted is inside. -/
structure Placed (s : State σ κ w g) : Prop where
  places : Placement Task.id s.submitted.length (holding s)
  known : ∀ id ∈ s.accepted, id < s.submitted.length
  inside : ∀ p, ∀ task ∈ holding s p, task.id ∈ s.accepted → p.inside

/-- What a submitter holds is what the caller gave, up to the push that fails. -/
def Carried (s : State σ κ w g) : Submitter κ → Prop
  | .check task | .ticket task | .push task _ => s.submitted[task.id]? = some task.callable
  | .overflow task => task.callable = none
  | .idle | .notify => True

structure Ranged (s : State σ κ w g) : Prop where
  workers : ∀ k ≥ n, s.workers k = .check
  queues : ∀ v ≥ n, (s.queues v).items = []
  submitters : ∀ i task idx, s.submitters i = .push task idx → idx < n

def Loop.phase : Loop → ℕ
  | .main => 0
  | .drainOwn => 1
  | .drainGlobal => 2

def Worker.phase : Worker κ → ℕ
  | .check | .own | .steal _ | .global | .wait => 0
  | .call _ loop | .running loop => loop.phase
  | .drainOwn => 1
  | .drainGlobal => 2
  | .done => 3

/-- What a worker that is past a queue has left there came too late to be accepted. -/
structure Drained (s : State σ κ w g) : Prop where
  stop : ∀ k, 1 ≤ (s.workers k).phase → s.stop = true
  own : ∀ k, 2 ≤ (s.workers k).phase → ∀ task ∈ (s.queues k).items, task.id ∉ s.accepted
  global : ∀ k, 3 ≤ (s.workers k).phase → ∀ task ∈ s.global.items, task.id ∉ s.accepted

/-- Accepted tasks are as their callers submitted them. -/
def Intact (s : State σ κ w g) : Prop :=
  ∀ p, ∀ task ∈ holding s p, task.id ∈ s.accepted → s.submitted[task.id]? = some task.callable

structure Sound (s : State σ κ w g) : Prop where
  placed : Placed s
  carried : ∀ i, Carried s (s.submitters i)
  ranged : Ranged n s
  drained : Drained s

end Invariants

section Delivery

variable {σ κ : Type} {w g n : ℕ} {s : State σ κ w g} {task : Task κ}

theorem Sound.pending_or_executed (h : Sound n s) {p : Place σ} (hinside : p.inside) (htask : task ∈ holding s p) :
    Pending n s task ∨ task ∈ s.executed := by
  cases p with
  | submitter | dropped => exact absurd hinside id
  | queue v =>
    refine .inl (.inl ⟨v, ?_, htask⟩)
    by_contra hv
    have hitems : task ∈ (s.queues v).items := htask
    rw [h.ranged.queues v (not_lt.mp hv)] at hitems
    cases hitems
  | global => exact .inl (.inr (.inl htask))
  | worker k =>
    have htasks : task ∈ (s.workers k).tasks := htask
    cases hk : s.workers k with
    | call other loop =>
      rw [hk] at htasks
      obtain rfl := List.mem_singleton.mp htasks
      refine .inl (.inr (.inr ⟨k, ?_, loop, hk⟩))
      by_contra hge
      rw [h.ranged.workers k (not_lt.mp hge)] at hk
      cases hk
    | check | own | steal | global | wait | running | drainOwn | drainGlobal | done =>
      rw [hk] at htasks
      cases htasks
  | executed => exact .inr htask

theorem Sound.accepted (h : Sound n s) {id : ℕ} (hid : id ∈ s.accepted) :
    ∃ p, p.inside ∧ ∃ task ∈ holding s p, task.id = id := by
  obtain ⟨p, task, htask, rfl⟩ := h.placed.places.somewhere id (h.placed.known id hid)
  exact ⟨p, h.placed.inside p task htask hid, task, htask, rfl⟩

theorem Sound.executed_of_done (h : Sound n s) (hn : 0 < n) (hdone : ∀ k < n, s.workers k = .done)
    (hid : task.id ∈ s.accepted) (hpending : Pending n s task) : task ∈ s.executed := by
  exfalso
  have hphase {k : ℕ} (hk : k < n) : (s.workers k).phase = 3 := by rw [hdone k hk]; rfl
  obtain ⟨v, hv, htask⟩ | htask | ⟨k, hk, loop, hcall⟩ := hpending
  · exact h.drained.own v (by rw [hphase hv]; decide) task htask hid
  · exact h.drained.global 0 (hphase hn).ge task htask hid
  · rw [hdone k hk] at hcall
    cases hcall

theorem Sound.delivered_iff (h : Sound n s) (hn : 0 < n) : Delivered n s ↔ Intact s := by
  constructor
  · intro hdelivered p task htask hid
    obtain ⟨callable, hcallable, hkept⟩ := hdelivered.kept task.id hid
    have hplace : ∃ q, ⟨task.id, callable⟩ ∈ holding s q := by
      obtain (⟨v, -, hv⟩ | hglobal | ⟨k, -, loop, hk⟩) | hexecuted := hkept
      · exact ⟨.queue v, hv⟩
      · exact ⟨.global, hglobal⟩
      · exact ⟨.worker k, by simp [holding, hk, Worker.tasks]⟩
      · exact ⟨.executed, hexecuted⟩
    obtain ⟨q, hq⟩ := hplace
    obtain ⟨-, heq⟩ := h.placed.places.eq htask hq rfl
    rw [heq]
    exact hcallable
  · intro hintact
    have hkept : ∀ id ∈ s.accepted, ∃ callable, s.submitted[id]? = some callable ∧
        (Pending n s ⟨id, callable⟩ ∨ ⟨id, callable⟩ ∈ s.executed) := by
      intro id hid
      obtain ⟨p, hinside, task, htask, rfl⟩ := h.accepted hid
      exact ⟨task.callable, hintact p task htask hid, h.pending_or_executed hinside htask⟩
    exact {
      once := h.placed.places.once .executed
      own := hintact .executed
      kept := hkept
      finished := by
        intro hdone id hid
        obtain ⟨callable, hcallable, hpending | hexecuted⟩ := hkept id hid
        · exact ⟨callable, hcallable, h.executed_of_done hn hdone hid hpending⟩
        · exact ⟨callable, hcallable, hexecuted⟩ }

end Delivery

section Effects

variable {σ κ : Type} [DecidableEq σ] {w g : ℕ} {s t : State σ κ w g} {fits : Prop}

/-- What a step does with the tasks, and when it fits. -/
inductive Effect (s t : State σ κ w g) (fits : Prop) : Prop
  | quiet (hheld : holding t = holding s) (hsubmitted : t.submitted = s.submitted) (haccepted : t.accepted = s.accepted)
      (hfits : fits)
  | fresh {i : σ} {callable : Option κ} (hidle : holding s (.submitter i) = [])
      (hheld : holding t = Function.update (holding s) (.submitter i) [⟨s.submitted.length, callable⟩])
      (hsubmitted : t.submitted = s.submitted ++ [callable]) (haccepted : t.accepted = s.accepted) (hfits : fits)
  | empties {task : Task κ} {i : σ} (hat : holding s (.submitter i) = [task])
      (hheld : holding t = Function.update (holding s) (.submitter i) [task.movedFrom])
      (hsubmitted : t.submitted = s.submitted) (haccepted : t.accepted = s.accepted) (hfits : fits)
  | carry {task : Task κ} {p q : Place σ} {rest : List (Task κ)} (hat : holding s p = task :: rest) (hne : p ≠ q)
      (hheld : holding t = Placement.move (holding s) p q task rest) (hinside : p.inside → q.inside)
      (hsubmitted : t.submitted = s.submitted) (haccepted : t.accepted = s.accepted) (hfits : fits)
  | accept {task : Task κ} {p q : Place σ} {rest : List (Task κ)} (hat : holding s p = task :: rest) (hne : p ≠ q)
      (hheld : holding t = Placement.move (holding s) p q task rest) (hinside : q.inside)
      (hsubmitted : t.submitted = s.submitted) (haccepted : t.accepted = s.accepted ++ [task.id])
      (hfits : fits ↔ s.submitted[task.id]? = some task.callable)

omit [DecidableEq σ] in
theorem mem_at {task : Task κ} {p : Place σ} {rest : List (Task κ)} (hat : holding s p = task :: rest) :
    task ∈ holding s p := by
  rw [hat]
  exact List.mem_cons_self

omit [DecidableEq σ] in
theorem Placed.outside {task : Task κ} (h : Placed s) {i : σ} (htask : task ∈ holding s (.submitter i)) :
    task.id ∉ s.accepted :=
  h.inside (.submitter i) task htask

theorem Effect.placed (he : Effect s t fits) (h : Placed s) : Placed t := by
  cases he with
  | quiet hheld hsubmitted haccepted =>
    constructor
    case places =>
      rw [hheld, hsubmitted]
      exact h.places
    case known =>
      rw [haccepted, hsubmitted]
      exact h.known
    case inside =>
      rw [hheld, haccepted]
      exact h.inside
  | @fresh i callable hidle hheld hsubmitted haccepted =>
    constructor
    case places =>
      rw [hheld, hsubmitted, List.length_append, List.length_singleton]
      exact h.places.fresh hidle rfl
    case known =>
      intro id hid
      rw [haccepted] at hid
      rw [hsubmitted, List.length_append]
      exact Nat.lt_add_right _ (h.known id hid)
    case inside =>
      rw [hheld, haccepted]
      intro p task htask hid
      obtain rfl | hne := eq_or_ne p (.submitter i)
      · rw [Function.update_self, List.mem_singleton] at htask
        subst htask
        exact absurd (h.known _ hid) (Nat.lt_irrefl _)
      · rw [Function.update_of_ne hne] at htask
        exact h.inside p task htask hid
  | @empties task i hat hheld hsubmitted haccepted =>
    constructor
    case places =>
      rw [hheld, hsubmitted]
      exact h.places.replaced hat rfl
    case known =>
      rw [haccepted, hsubmitted]
      exact h.known
    case inside =>
      rw [hheld, haccepted]
      intro p other hother hid
      obtain rfl | hne := eq_or_ne p (.submitter i)
      · rw [Function.update_self, List.mem_singleton] at hother
        have hout := h.outside (mem_at hat)
        rw [hother] at hid
        exact absurd hid hout
      · rw [Function.update_of_ne hne] at hother
        exact h.inside p other hother hid
  | @carry task p q rest hat hne hheld hinside hsubmitted haccepted =>
    constructor
    case places =>
      rw [hheld, hsubmitted]
      exact h.places.moved hat hne
    case known =>
      rw [haccepted, hsubmitted]
      exact h.known
    case inside =>
      rw [hheld, haccepted]
      intro r other hother hid
      obtain ⟨-, hold⟩ | ⟨rfl, hrest⟩ | ⟨rfl, rfl⟩ := (Placement.mem_move hat hne r).mp hother
      · exact h.inside r other hold hid
      · exact h.inside r other (by rw [hat]; exact List.mem_cons_of_mem task hrest) hid
      · exact hinside (h.inside p other (mem_at hat) hid)
  | @accept task p q rest hat hne hheld hinside hsubmitted haccepted =>
    have hmoved := h.places.moved hat hne
    constructor
    case places =>
      rw [hheld, hsubmitted]
      exact hmoved
    case known =>
      rw [haccepted, hsubmitted]
      intro id hid
      obtain hid | hid := List.mem_append.mp hid
      · exact h.known id hid
      · rw [List.mem_singleton.mp hid]
        exact h.places.bound p task (mem_at hat)
    case inside =>
      rw [hheld, haccepted]
      intro r other hother hid
      by_cases hsame : other.id = task.id
      · have htask : task ∈ Placement.move (holding s) p q task rest q :=
          (Placement.mem_move hat hne q).mpr (.inr (.inr ⟨rfl, rfl⟩))
        obtain ⟨rfl, -⟩ := hmoved.eq hother htask hsame
        exact hinside
      · have hid : other.id ∈ s.accepted := by simpa [hsame] using hid
        obtain ⟨-, hold⟩ | ⟨rfl, hrest⟩ | ⟨-, rfl⟩ := (Placement.mem_move hat hne r).mp hother
        · exact h.inside r other hold hid
        · exact h.inside r other (by rw [hat]; exact List.mem_cons_of_mem task hrest) hid
        · exact absurd rfl hsame

/-- A step leaves accepted tasks as they were submitted if and only if they were so and the step fits. -/
theorem Effect.intact_iff (he : Effect s t fits) (h : Placed s) : Intact t ↔ Intact s ∧ fits := by
  cases he with
  | quiet hheld hsubmitted haccepted hfits =>
    rw [Intact, hheld, hsubmitted, haccepted, and_iff_left hfits]
    rfl
  | @fresh i callable hidle hheld hsubmitted haccepted hfits =>
    rw [Intact, hheld, hsubmitted, haccepted, and_iff_left hfits, Placement.forall_mem_update]
    have hsame {id : ℕ} (hid : id ∈ s.accepted) : (s.submitted ++ [callable])[id]? = s.submitted[id]? :=
      List.getElem?_append_left (h.known id hid)
    constructor
    · rintro ⟨-, hrest⟩ r other hother hid
      have hne : r ≠ .submitter i := by
        rintro rfl
        rw [hidle] at hother
        cases hother
      rw [← hsame hid]
      exact hrest r hne other hother hid
    · intro hintact
      constructor
      · intro other hother hid
        rw [List.mem_singleton.mp hother] at hid
        exact absurd (h.known _ hid) (Nat.lt_irrefl _)
      · intro r _ other hother hid
        rw [hsame hid]
        exact hintact r other hother hid
  | @empties task i hat hheld hsubmitted haccepted hfits =>
    rw [Intact, hheld, hsubmitted, haccepted, and_iff_left hfits, Placement.forall_mem_update]
    have hout := h.outside (mem_at hat)
    constructor
    · rintro ⟨-, hrest⟩ r other hother hid
      have hne : r ≠ .submitter i := by
        rintro rfl
        exact h.outside hother hid
      exact hrest r hne other hother hid
    · intro hintact
      constructor
      · intro other hother hid
        rw [List.mem_singleton.mp hother] at hid
        exact absurd hid hout
      · exact fun r _ other hother hid => hintact r other hother hid
  | @carry task p q rest hat hne hheld hinside hsubmitted haccepted hfits =>
    rw [Intact, hheld, hsubmitted, haccepted, and_iff_left hfits, Placement.forall_mem_move hat hne]
    rfl
  | @accept task p q rest hat hne hheld hinside hsubmitted haccepted hfits =>
    rw [Intact, hheld, hsubmitted, haccepted, hfits, Placement.forall_mem_move hat hne]
    constructor
    · intro hintact
      refine ⟨fun r other hother hid => hintact r other hother (List.mem_append_left _ hid), ?_⟩
      exact hintact p task (mem_at hat) (List.mem_append_right _ List.mem_cons_self)
    · rintro ⟨hintact, htask⟩ r other hother hid
      obtain hid | hid := List.mem_append.mp hid
      · exact hintact r other hother hid
      · obtain ⟨-, rfl⟩ := h.places.eq hother (mem_at hat) (List.mem_singleton.mp hid)
        exact htask

end Effects

end Klett.Cunk.ThreadPool
