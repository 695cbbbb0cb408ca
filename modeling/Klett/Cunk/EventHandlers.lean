import Klett.Lib.Custody
import Klett.Lib.Fifo
import Mathlib.Algebra.Order.Ring.Int
import Mathlib.Data.Fintype.Basic

namespace Klett.Cunk.EventHandlers

open Klett.Lib

section Data

/-- An event with the id of its concrete type. -/
structure Event (β : Type) where
  typeId : ℕ
  payload : β
  deriving DecidableEq

structure HandlerEntry (η : Type) where
  id : ℕ
  typeId : ℕ
  handler : η
  deriving DecidableEq

/-- A call of `on` or of `run_one`, between two of its operations. A call made inside a handler is one of its own, and
the handler is at `handler` for as long as it runs. A popped event goes by its ticket, the number of pops before it. -/
inductive Call (β η : Type) where
  | idle
  | register (entry : HandlerEntry η)
  | snapshot (ticket : ℕ) (event : Event β)
  | invoke (ticket : ℕ) (event : Event β) (matched : List (HandlerEntry η))
  | handler (ticket : ℕ) (event : Event β) (matched : List (HandlerEntry η))
  deriving DecidableEq

structure State (ι β η : Type) (capacity : ℕ) where
  queue : Fifo (Event β) capacity := .empty
  handlers : List (HandlerEntry η) := []
  nextHandlerId : ℕ := 1
  calls : ι → Call β η := fun _ => .idle
  pops : ℕ := 0

/-- The queue may refuse a push while a pop holds its slot, and miss an event that is still being pushed. -/
inductive Action (ι β η : Type) where
  | on (i : ι) (typeId : ℕ) (handler : η)
  | off (id : ℕ)
  | dispatch (event : Option (Event β)) (refused : Bool)
  | runOne (i : ι) (missed : Bool)
  | step (i : ι)

inductive Observation (β η : Type) where
  | numbered (id : ℕ)
  | registered (entry : HandlerEntry η)
  | removed (id : ℕ)
  | pushed (event : Event β)
  | dropped (event : Event β)
  | popped (event : Event β)
  | matched (ticket : ℕ)
  | called (ticket : ℕ) (entry : HandlerEntry η)
  | processed (ticket : ℕ)
  deriving DecidableEq

end Data

section Model

variable {ι β η : Type} {capacity : ℕ} [DecidableEq ι]

def State.atCall (s : State ι β η capacity) (i : ι) (c : Call β η) : State ι β η capacity :=
  { s with calls := Function.update s.calls i c }

def matching (handlers : List (HandlerEntry η)) (event : Event β) : List (HandlerEntry η) :=
  handlers.filter (·.typeId = event.typeId)

/-- `on_impl` up to the lock. -/
def on (s : State ι β η capacity) (i : ι) (typeId : ℕ) (handler : η) :
    Option (State ι β η capacity × List (Observation β η)) :=
  match s.calls i with
  | .idle =>
    let id := s.nextHandlerId
    some ({ s.atCall i (.register ⟨id, typeId, handler⟩) with nextHandlerId := (id + 1) % 2 ^ 64 }, [.numbered id])
  | _ => none

def off (s : State ι β η capacity) (id : ℕ) : State ι β η capacity × List (Observation β η) :=
  ({ s with handlers := s.handlers.filter (·.id ≠ id) }, [.removed id])

def dispatch (s : State ι β η capacity) (event : Option (Event β)) (refused : Bool) :
    State ι β η capacity × List (Observation β η) :=
  match event with
  | none => (s, [])
  | some event =>
    match if refused then none else s.queue.tryPush event with
    | some queue => ({ s with queue := queue }, [.pushed event])
    | none => (s, [.dropped event])

/-- `process_one` up to the lock. -/
def runOne (s : State ι β η capacity) (i : ι) (missed : Bool) :
    Option (State ι β η capacity × List (Observation β η)) :=
  match s.calls i with
  | .idle =>
    match if missed then none else s.queue.tryPop with
    | some (event, queue) =>
      some ({ s.atCall i (.snapshot s.pops event) with queue := queue, pops := s.pops + 1 }, [.popped event])
    | none => some (s, [])
  | _ => none

/-- A handler ends in the same way whether it returns or throws. -/
def callStep (s : State ι β η capacity) (i : ι) : Option (State ι β η capacity × List (Observation β η)) :=
  match s.calls i with
  | .idle => none
  | .register entry => some ({ s.atCall i .idle with handlers := s.handlers ++ [entry] }, [.registered entry])
  | .snapshot ticket event => some (s.atCall i (.invoke ticket event (matching s.handlers event)), [.matched ticket])
  | .invoke ticket event (entry :: matched) =>
    some (s.atCall i (.handler ticket event matched), [.called ticket entry])
  | .invoke ticket _ [] => some (s.atCall i .idle, [.processed ticket])
  | .handler ticket event matched => some (s.atCall i (.invoke ticket event matched), [])

def machine : Machine (State ι β η capacity) (Action ι β η) (Observation β η) where
  step s
    | .on i typeId handler => on s i typeId handler
    | .off id => some (off s id)
    | .dispatch event refused => some (dispatch s event refused)
    | .runOne i missed => runOne s i missed
    | .step i => callStep s i

end Model

section Specification

variable {ι β η : Type} {capacity : ℕ}

namespace Observation

def pushedEvent : Observation β η → Option (Event β)
  | .pushed event => some event
  | _ => none

def poppedEvent : Observation β η → Option (Event β)
  | .popped event => some event
  | _ => none

def numberedId : Observation β η → Option ℕ
  | .numbered id => some id
  | _ => none

def calledFor (ticket : ℕ) : Observation β η → Option (HandlerEntry η)
  | .called k entry => if k = ticket then some entry else none
  | _ => none

def calledTicket : Observation β η → Option ℕ
  | .called ticket _ => some ticket
  | _ => none

def ticket : Observation β η → Option ℕ
  | .matched ticket | .called ticket _ | .processed ticket => some ticket
  | _ => none

def processes (ticket : ℕ) : Observation β η → Bool
  | .processed k => k = ticket
  | _ => false

end Observation

def register (handlers : List (HandlerEntry η)) : Observation β η → List (HandlerEntry η)
  | .registered entry => handlers ++ [entry]
  | .removed id => handlers.filter (·.id ≠ id)
  | _ => handlers

/-- The handlers that stand registered, oldest first, after what was observed. -/
def registry (o : List (Observation β η)) : List (HandlerEntry η) := o.foldl register []

def pushed (o : List (Observation β η)) : List (Event β) := o.filterMap Observation.pushedEvent

def popped (o : List (Observation β η)) : List (Event β) := o.filterMap Observation.poppedEvent

def numbered (o : List (Observation β η)) : List ℕ := o.filterMap Observation.numberedId

/-- The handlers called for one popped event. -/
def called (ticket : ℕ) (o : List (Observation β η)) : List (HandlerEntry η) :=
  o.filterMap (Observation.calledFor ticket)

/-- The event of the ticket has gone to the handlers that stood registered for its type at one moment after its pop,
each once and in the order of their registration, but for the ones at the end that are still `left`. -/
def Delivering (o : List (Observation β η)) (ticket : ℕ) (left : List (HandlerEntry η)) : Prop :=
  ∃ before after event, o = before ++ .matched ticket :: after ∧ .matched ticket ∉ before ∧ .matched ticket ∉ after ∧
    (popped before)[ticket]? = some event ∧ called ticket before = [] ∧
      called ticket after ++ left = matching (registry before) event

/-- A dispatched event that finds room is popped once, in the order of dispatch, and a popped one goes to the handlers
registered for it. -/
structure Delivered (o : List (Observation β η)) (queue : List (Event β)) : Prop where
  order : pushed o = popped o ++ queue
  early : ∀ ticket, .matched ticket ∉ o → called ticket o = []
  matched : ∀ ticket, .matched ticket ∈ o → ∃ left, Delivering o ticket left ∧ (.processed ticket ∈ o → left = [])
  processed : ∀ ticket, .processed ticket ∈ o → .matched ticket ∈ o

def Call.ticket : Call β η → Option ℕ
  | .snapshot ticket _ | .invoke ticket _ _ | .handler ticket _ _ => some ticket
  | _ => none

/-- Events are processed one at a time: one thread runs the loop, and no handler runs it. -/
def OneLoop (_ : Trace (Action ι β η) (Observation β η)) (s : State ι β η capacity) (a : Action ι β η) : Prop :=
  match a with
  | .runOne _ _ => ∀ i, (s.calls i).ticket = none
  | _ => True

/-- The counter has not come round. -/
def Counting (h : Trace (Action ι β η) (Observation β η)) (_ : State ι β η capacity) (a : Action ι β η) : Prop :=
  match a with
  | .on _ _ _ => (numbered h.events).length < 2 ^ 64
  | _ => True

instance [Fintype ι] (h : Trace (Action ι β η) (Observation β η)) (s : State ι β η capacity) (a : Action ι β η) :
    Decidable (OneLoop h s a) :=
  match a with
  | .runOne _ _ => inferInstanceAs (Decidable (∀ i, (s.calls i).ticket = none))
  | .on _ _ _ | .off _ | .dispatch _ _ | .step _ => isTrue trivial

instance (h : Trace (Action ι β η) (Observation β η)) (s : State ι β η capacity) (a : Action ι β η) :
    Decidable (Counting h s a) :=
  match a with
  | .on _ _ _ => inferInstanceAs (Decidable ((numbered h.events).length < 2 ^ 64))
  | .runOne _ _ | .off _ | .dispatch _ _ | .step _ => isTrue trivial

end Specification

section Tickets

variable {ι β η : Type} {o es : List (Observation β η)} {ticket k pops : ℕ} {left : List (HandlerEntry η)}
  {calls : ι → Call β η} {c : Call β η} {event : Event β} {i : ι}

/-- Nothing seen is about the ticket. -/
def Untouched (o : List (Observation β η)) (ticket : ℕ) : Prop := .matched ticket ∉ o ∧ called ticket o = []

def Progress (o : List (Observation β η)) : Call β η → Prop
  | .snapshot ticket event => (popped o)[ticket]? = some event ∧ Untouched o ticket
  | .invoke ticket _ left | .handler ticket _ left => Delivering o ticket left
  | _ => True

structure Tickets (o : List (Observation β η)) (pops : ℕ) (calls : ι → Call β η) : Prop where
  custody : Custody (fun i => (calls i).ticket) pops fun ticket => o.countP (Observation.processes ticket)
  later : ∀ ticket, pops ≤ ticket → Untouched o ticket
  progress : ∀ i, Progress o (calls i)
  finished : ∀ ticket, .processed ticket ∈ o → Delivering o ticket []

/-- What is seen next is about other tickets. -/
def Apart (es : List (Observation β η)) (ticket : ℕ) : Prop := ∀ x ∈ es, x.ticket ≠ some ticket

theorem called_append : called ticket (o ++ es) = called ticket o ++ called ticket es := List.filterMap_append

theorem Apart.called (h : Apart es ticket) : called ticket es = [] := by
  apply List.filterMap_eq_nil_iff.mpr
  intro x hx
  have hne := h x hx
  cases x with
  | called k entry =>
    refine if_neg ?_
    rintro rfl
    exact hne rfl
  | _ => rfl

theorem Apart.matched (h : Apart es ticket) : .matched ticket ∉ es := fun hmem => h _ hmem rfl

theorem Apart.processed (h : Apart es ticket) : .processed ticket ∉ es := fun hmem => h _ hmem rfl

theorem Apart.countP (h : Apart es ticket) : es.countP (Observation.processes ticket) = 0 := by
  apply List.countP_eq_zero.mpr
  intro x hx
  have hne := h x hx
  cases x with
  | processed k =>
    intro htrue
    obtain rfl := of_decide_eq_true htrue
    exact hne rfl
  | _ => simp [Observation.processes]

theorem Untouched.append (h : Untouched o ticket) (hes : Apart es ticket) : Untouched (o ++ es) ticket := by
  constructor
  · rw [List.mem_append]
    exact not_or.mpr ⟨h.1, hes.matched⟩
  · rw [called_append, h.2, hes.called, List.append_nil]

theorem Delivering.more {rest : List (HandlerEntry η)} (h : Delivering o ticket left)
    (hmatched : .matched ticket ∉ es) (hes : called ticket es ++ rest = left) :
    Delivering (o ++ es) ticket rest := by
  obtain ⟨before, after, event, rfl, hfirst, honce, hpop, hbefore, hafter⟩ := h
  refine ⟨before, after ++ es, event, by simp, hfirst, ?_, hpop, hbefore, ?_⟩
  · rw [List.mem_append]
    exact not_or.mpr ⟨honce, hmatched⟩
  · rw [called_append, List.append_assoc, hes, hafter]

theorem Delivering.append (h : Delivering o ticket left) (hes : Apart es ticket) : Delivering (o ++ es) ticket left :=
  h.more hes.matched (by rw [hes.called, List.nil_append])

theorem getElem?_popped_append (h : (popped o)[ticket]? = some event) : (popped (o ++ es))[ticket]? = some event := by
  obtain ⟨hlt, -⟩ := List.getElem?_eq_some_iff.mp h
  have happend : popped (o ++ es) = popped o ++ popped es := List.filterMap_append
  rw [happend, List.getElem?_append_left hlt, h]

theorem Progress.append (h : Progress o c) (hes : ∀ k, c.ticket = some k → Apart es k) : Progress (o ++ es) c := by
  cases c with
  | idle | register => trivial
  | snapshot ticket event => exact ⟨getElem?_popped_append h.1, h.2.append (hes ticket rfl)⟩
  | invoke ticket event left | handler ticket event left => exact Delivering.append h (hes ticket rfl)

theorem apart_of_none (hes : ∀ x ∈ es, x.ticket = none) (ticket : ℕ) : Apart es ticket := by
  intro x hx
  rw [hes x hx]
  exact nofun

theorem Tickets.quiet (h : Tickets o pops calls) (hes : ∀ x ∈ es, x.ticket = none) : Tickets (o ++ es) pops calls where
  custody := by
    have hcount (ticket : ℕ) : (o ++ es).countP (Observation.processes ticket) =
        o.countP (Observation.processes ticket) := by
      rw [List.countP_append, (apart_of_none hes ticket).countP, Nat.add_zero]
    simp only [hcount]
    exact h.custody
  later ticket hticket := (h.later ticket hticket).append (apart_of_none hes ticket)
  progress i := (h.progress i).append fun k _ => apart_of_none hes k
  finished ticket hmem := by
    have hold := (List.mem_append.mp hmem).resolve_right (apart_of_none hes ticket).processed
    exact (h.finished ticket hold).append (apart_of_none hes ticket)

theorem apart_of_ne (hes : ∀ x ∈ es, x.ticket = some ticket) (hne : k ≠ ticket) : Apart es k := by
  intro x hx heq
  rw [hes x hx] at heq
  exact hne (Option.some.inj heq).symm

variable [DecidableEq ι]

theorem ticket_update : (fun j => (Function.update calls i c j).ticket) =
    Function.update (fun j => (calls j).ticket) i c.ticket :=
  funext fun j => Function.apply_update (fun _ => Call.ticket) calls i c j

theorem Tickets.swap (h : Tickets o pops calls) (hi : (calls i).ticket = c.ticket) (hc : Progress o c) :
    Tickets o pops (Function.update calls i c) where
  custody := by
    rw [ticket_update, ← hi, Function.update_eq_self]
    exact h.custody
  later := h.later
  progress := (Function.forall_update_iff calls fun _ => Progress o).mpr ⟨hc, fun j _ => h.progress j⟩
  finished := h.finished

theorem Tickets.pop (h : Tickets o pops calls) (hi : (calls i).ticket = none)
    (hevent : (popped o)[pops]? = some event) :
    Tickets o (pops + 1) (Function.update calls i (.snapshot pops event)) where
  custody := by
    rw [ticket_update]
    exact h.custody.acquire hi
  later ticket hticket := h.later ticket (Nat.le_of_succ_le hticket)
  progress := (Function.forall_update_iff calls fun _ => Progress o).mpr
    ⟨⟨hevent, h.later pops (Nat.le_refl pops)⟩, fun j _ => h.progress j⟩
  finished := h.finished

/-- The call that holds a ticket goes on with it. -/
theorem Tickets.work (h : Tickets o pops calls) (hi : (calls i).ticket = some ticket) (hc : c.ticket = some ticket)
    (hes : ∀ x ∈ es, x.ticket = some ticket) (hprocessed : .processed ticket ∉ es) (hprogress : Progress (o ++ es) c) :
    Tickets (o ++ es) pops (Function.update calls i c) := by
  have hapart {k : ℕ} (hne : k ≠ ticket) : Apart es k := apart_of_ne hes hne
  obtain ⟨hlt, hzero⟩ := h.custody.held i ticket hi
  constructor
  case custody =>
    have hcount (k : ℕ) : (o ++ es).countP (Observation.processes k) = o.countP (Observation.processes k) := by
      rw [List.countP_append, Nat.add_eq_left, List.countP_eq_zero]
      intro x hx
      have hticket := hes x hx
      cases x with
      | processed j =>
        obtain rfl := Option.some.inj hticket
        exact absurd hx hprocessed
      | _ => simp [Observation.processes]
    simp only [hcount]
    rw [ticket_update, hc, ← hi, Function.update_eq_self]
    exact h.custody
  case later =>
    intro k hk
    exact (h.later k hk).append (hapart (by omega))
  case progress =>
    apply (Function.forall_update_iff calls fun _ => Progress (o ++ es)).mpr
    refine ⟨hprogress, fun j hj => (h.progress j).append fun k hk => hapart ?_⟩
    rintro rfl
    exact hj (h.custody.apart j i k hk hi)
  case finished =>
    intro k hk
    obtain hold | hnew := List.mem_append.mp hk
    · apply (h.finished k hold).append
      apply hapart
      rintro rfl
      have hpos : 0 < o.countP (Observation.processes k) := List.countP_pos_iff.mpr ⟨_, hold, decide_eq_true rfl⟩
      exact absurd hzero (Nat.ne_of_gt hpos)
    · obtain rfl := Option.some.inj (hes _ hnew)
      exact absurd hnew hprocessed

theorem Tickets.finish (h : Tickets o pops calls) (hi : calls i = .invoke ticket event []) :
    Tickets (o ++ [.processed ticket]) pops (Function.update calls i .idle) := by
  have hticket : (calls i).ticket = some ticket := by rw [hi]; rfl
  have hes (x : Observation β η) (hx : x ∈ [.processed ticket]) : x.ticket = some ticket := by
    rw [List.mem_singleton.mp hx]
    rfl
  have hapart {k : ℕ} (hne : k ≠ ticket) : Apart [.processed ticket] k := apart_of_ne hes hne
  obtain ⟨hlt, hzero⟩ := h.custody.held i ticket hticket
  constructor
  case custody =>
    have hcount : (fun k => (o ++ [Observation.processed ticket]).countP (Observation.processes k)) =
        Function.update (fun k => o.countP (Observation.processes k)) ticket
          (o.countP (Observation.processes ticket) + 1) := by
      funext k
      rw [List.countP_append]
      obtain rfl | hne := eq_or_ne k ticket
      · rw [Function.update_self]
        simp [Observation.processes]
      · rw [Function.update_of_ne hne, (hapart hne).countP, Nat.add_zero]
    rw [ticket_update, hcount]
    exact h.custody.release hticket
  case later =>
    intro k hk
    exact (h.later k hk).append (hapart (by omega))
  case progress =>
    apply (Function.forall_update_iff calls fun _ => Progress (o ++ [Observation.processed ticket])).mpr
    refine ⟨trivial, fun j hj => (h.progress j).append fun k hk => hapart ?_⟩
    rintro rfl
    exact hj (h.custody.apart j i k hk hticket)
  case finished =>
    intro k hk
    obtain rfl | hne := eq_or_ne k ticket
    · have hprogress := h.progress i
      rw [hi] at hprogress
      exact Delivering.more hprogress (by simp) rfl
    · have hold := (List.mem_append.mp hk).resolve_right (hapart hne).processed
      exact (h.finished k hold).append (hapart hne)

omit [DecidableEq ι] in
theorem Tickets.untouched_or (h : Tickets o pops calls) (ticket : ℕ) :
    Untouched o ticket ∨ ∃ left, Delivering o ticket left ∧ (.processed ticket ∈ o → left = []) := by
  obtain hlt | hle := Nat.lt_or_ge ticket pops
  · obtain hone | ⟨i, hi⟩ := h.custody.gone ticket hlt
    · have hpos : 0 < o.countP (Observation.processes ticket) := by omega
      obtain ⟨x, hx, hprocesses⟩ := List.countP_pos_iff.mp hpos
      cases x with
      | processed k =>
        obtain rfl := of_decide_eq_true hprocesses
        exact .inr ⟨[], h.finished k hx, fun _ => rfl⟩
      | _ => cases hprocesses
    · have hprocessed : .processed ticket ∉ o := by
        intro hmem
        have hpos : 0 < o.countP (Observation.processes ticket) :=
          List.countP_pos_iff.mpr ⟨_, hmem, decide_eq_true rfl⟩
        exact absurd (h.custody.held i ticket hi).2 (Nat.ne_of_gt hpos)
      have hprogress := h.progress i
      cases hcall : calls i with
      | idle | register =>
        rw [hcall] at hi
        cases hi
      | snapshot k event =>
        rw [hcall] at hi hprogress
        cases hi
        exact .inl hprogress.2
      | invoke k event left | handler k event left =>
        rw [hcall] at hi hprogress
        cases hi
        exact .inr ⟨left, hprogress, fun hmem => absurd hmem hprocessed⟩
  · exact .inl (h.later ticket hle)

theorem Delivering.mem_matched (h : Delivering o ticket left) : .matched ticket ∈ o := by
  obtain ⟨before, after, event, rfl, -⟩ := h
  simp

end Tickets

section Delivery

variable {ι β η : Type} {capacity : ℕ} {o es : List (Observation β η)} {x : Observation β η} {s t : State ι β η capacity}
  {event : Event β} {queue : Fifo (Event β) capacity} {i : ι}

structure Consistent (o : List (Observation β η)) (s : State ι β η capacity) : Prop where
  queue : s.queue.Accounts (pushed o) (popped o)
  pops : s.pops = (popped o).length
  handlers : s.handlers = registry o
  tickets : Tickets o s.pops s.calls

theorem pushed_concat : pushed (o ++ [x]) = pushed o ++ x.pushedEvent.toList := by
  rw [pushed, List.filterMap_append]
  cases x <;> rfl

theorem popped_concat : popped (o ++ [x]) = popped o ++ x.poppedEvent.toList := by
  rw [popped, List.filterMap_append]
  cases x <;> rfl

theorem registry_concat : registry (o ++ [x]) = register (registry o) x := List.foldl_concat ..

theorem quiet_single (hx : x.ticket = none) (y : Observation β η) (hy : y ∈ [x]) : y.ticket = none := by
  rw [List.mem_singleton.mp hy]
  exact hx

/-- A step that leaves the queue alone. -/
theorem Consistent.next (h : Consistent o s) (hpush : x.pushedEvent = none) (hpop : x.poppedEvent = none)
    (hqueue : t.queue = s.queue) (hpops : t.pops = s.pops) (hhandlers : t.handlers = register s.handlers x)
    (htickets : Tickets (o ++ [x]) s.pops t.calls) : Consistent (o ++ [x]) t where
  queue := by
    rw [pushed_concat, popped_concat, hpush, hpop, hqueue]
    simpa using h.queue
  pops := by
    rw [hpops, popped_concat, hpop, h.pops]
    simp
  handlers := by rw [hhandlers, registry_concat, h.handlers]
  tickets := by
    rw [hpops]
    exact htickets

theorem Consistent.push (h : Consistent o s) (hpush : s.queue.tryPush event = some queue) :
    Consistent (o ++ [.pushed event]) { s with queue := queue } where
  queue := by
    rw [pushed_concat, popped_concat]
    simpa [Observation.pushedEvent, Observation.poppedEvent] using h.queue.push hpush
  pops := by
    rw [popped_concat]
    simpa [Observation.poppedEvent] using h.pops
  handlers := by
    rw [registry_concat]
    exact h.handlers
  tickets := h.tickets.quiet (quiet_single rfl)

theorem Consistent.dispatch (h : Consistent o s) (event : Option (Event β)) (refused : Bool) :
    Consistent (o ++ (dispatch s event refused).2) (dispatch s event refused).1 := by
  unfold EventHandlers.dispatch
  split
  · rw [List.append_nil]
    exact h
  · next event =>
    split
    · next queue hpush =>
      cases refused with
      | true => cases hpush
      | false => exact h.push hpush
    · exact h.next rfl rfl rfl rfl rfl (h.tickets.quiet (quiet_single rfl))

variable [DecidableEq ι]

theorem Consistent.on {typeId : ℕ} {handler : η} (h : Consistent o s) (hs : on s i typeId handler = some (t, es)) :
    Consistent (o ++ es) t := by
  unfold EventHandlers.on at hs
  split at hs
  · next hidle =>
    cases hs
    refine h.next rfl rfl rfl rfl rfl ?_
    apply (h.tickets.quiet (quiet_single rfl)).swap
    · rw [hidle]
      rfl
    · trivial
  · cases hs

theorem Consistent.runOne {missed : Bool} (h : Consistent o s) (hs : runOne s i missed = some (t, es)) :
    Consistent (o ++ es) t := by
  unfold EventHandlers.runOne at hs
  split at hs
  · next hidle =>
    split at hs
    · next event queue hpop =>
      have hpop : s.queue.tryPop = some (event, queue) := by
        cases missed with
        | true => cases hpop
        | false => exact hpop
      cases hs
      have hpopped : popped (o ++ [.popped event]) = popped o ++ [event] := popped_concat
      constructor
      · rw [hpopped, pushed_concat]
        simpa [Observation.pushedEvent] using h.queue.pop hpop
      · rw [hpopped, List.length_append, ← h.pops]
        rfl
      · rw [registry_concat]
        exact h.handlers
      · apply (h.tickets.quiet (quiet_single rfl)).pop
        · rw [hidle]
          rfl
        · rw [hpopped, h.pops, List.getElem?_concat_length]
    · cases hs
      rw [List.append_nil]
      exact h
  · cases hs

theorem Consistent.callStep (h : Consistent o s) (hs : callStep s i = some (t, es)) : Consistent (o ++ es) t := by
  have hprogress := h.tickets.progress i
  unfold EventHandlers.callStep at hs
  split at hs
  · cases hs
  · next entry hcall =>
    cases hs
    refine h.next rfl rfl rfl rfl rfl ?_
    apply (h.tickets.quiet (quiet_single rfl)).swap
    · rw [hcall]
      rfl
    · trivial
  · next ticket event hcall =>
    cases hs
    rw [hcall] at hprogress
    obtain ⟨hevent, hunmatched, huncalled⟩ := hprogress
    refine h.next rfl rfl rfl rfl rfl ?_
    apply h.tickets.work (by rw [hcall]; rfl) rfl (by simp [Observation.ticket]) (by simp)
    refine ⟨o, [], event, rfl, hunmatched, List.not_mem_nil, hevent, huncalled, ?_⟩
    rw [h.handlers]
    rfl
  · next ticket event entry matched hcall =>
    cases hs
    rw [hcall] at hprogress
    refine h.next rfl rfl rfl rfl rfl ?_
    apply h.tickets.work (by rw [hcall]; rfl) rfl (by simp [Observation.ticket]) (by simp)
    apply Delivering.more hprogress (by simp)
    simp [called, Observation.calledFor]
  · next ticket event hcall =>
    cases hs
    exact h.next rfl rfl rfl rfl rfl (h.tickets.finish hcall)
  · next ticket event matched hcall =>
    cases hs
    rw [hcall] at hprogress
    rw [List.append_nil]
    exact ⟨h.queue, h.pops, h.handlers, h.tickets.swap (by rw [hcall]; rfl) hprogress⟩

theorem consistent_step {a : Action ι β η} (h : Consistent o s) (hs : machine.step s a = some (t, es)) :
    Consistent (o ++ es) t := by
  cases a with
  | on i typeId handler => exact h.on hs
  | off id =>
    cases hs
    exact h.next rfl rfl rfl rfl rfl (h.tickets.quiet (quiet_single rfl))
  | dispatch event refused =>
    have hstep := h.dispatch event refused
    rw [Option.some.inj hs] at hstep
    exact hstep
  | runOne i missed => exact h.runOne hs
  | step i => exact h.callStep hs

variable {C : Machine.Guard (State ι β η capacity) (Action ι β η) (Observation β η)}
  {h : Trace (Action ι β η) (Observation β η)}

theorem consistent_of_reach (hr : machine.Reach C {} h s) : Consistent h.events s := by
  apply hr.invariant (I := fun h s => Consistent h.events s)
  · refine ⟨rfl, rfl, rfl, ?_⟩
    exact ⟨Custody.empty ι, fun _ _ => ⟨by simp, rfl⟩, fun _ => trivial, fun _ hmem => by cases hmem⟩
  · intro h s a t es hconsistent _ hs
    rw [Trace.events_append, Trace.events_single]
    exact consistent_step hconsistent hs

omit [DecidableEq ι] in
theorem Consistent.delivered (h : Consistent o s) : Delivered o s.queue.items where
  order := h.queue
  early ticket hmatched := by
    obtain huntouched | ⟨left, hdelivering, -⟩ := h.tickets.untouched_or ticket
    · exact huntouched.2
    · exact absurd hdelivering.mem_matched hmatched
  matched ticket hmatched := by
    obtain huntouched | hdelivering := h.tickets.untouched_or ticket
    · exact absurd hmatched huntouched.1
    · exact hdelivering
  processed ticket hprocessed := (h.tickets.finished ticket hprocessed).mem_matched

/-- Over all interleavings of the calls, those made inside handlers among them. -/
theorem events_delivered (hr : machine.Run {} h s) : Delivered h.events s.queue.items :=
  (consistent_of_reach hr).delivered

/-- The second handler is registered too late for the event, and the first is removed too late. -/
theorem events_delivered_one : ∃ h, ∃ s : State Bool Unit Unit 1, machine.Run {} h s ∧
    .processed 0 ∈ h.events ∧ called 0 h.events = [⟨1, 0, ()⟩] ∧ s.handlers = [⟨2, 0, ()⟩] ∧
      Delivered h.events s.queue.items := by
  obtain ⟨h, s, hr, hprocessed, hcalled, hhandlers⟩ := Machine.exists_run
    (machine : Machine (State Bool Unit Unit 1) _ _) {}
    (fun h s => .processed 0 ∈ h.events ∧ called 0 h.events = [⟨1, 0, ()⟩] ∧ s.handlers = [⟨2, 0, ()⟩])
    [.on true 0 (), .step true, .dispatch (some ⟨0, ()⟩) false, .dispatch (some ⟨0, ()⟩) false, .runOne true false,
      .step true, .on false 0 (), .step false, .off 1, .step true, .step true, .step true] (by decide +kernel)
  exact ⟨h, s, hr, hprocessed, hcalled, hhandlers, events_delivered hr⟩

end Delivery

section Removal

variable {ι β η : Type} {capacity : ℕ} {o es : List (Observation β η)} {s t : State ι β η capacity} {i : ι}

/-- How many ids were given before this one. -/
@[irreducible] def place (id : ℕ) : ℕ := (id + (2 ^ 64 - 1)) % 2 ^ 64

def Call.pending : Call β η → Option ℕ
  | .register entry => some (place entry.id)
  | _ => none

def Observation.registers (n : ℕ) : Observation β η → Bool
  | .registered entry => place entry.id = n
  | _ => false

structure Named (o : List (Observation β η)) (s : State ι β η capacity) : Prop where
  next : s.nextHandlerId = (1 + (numbered o).length) % 2 ^ 64
  custody : Custody (fun i => (s.calls i).pending) (numbered o).length fun n => o.countP (Observation.registers n)

theorem place_next {n : ℕ} (hn : n < 2 ^ 64) : place ((1 + n) % 2 ^ 64) = n := by
  unfold place
  omega

theorem numbered_append : numbered (o ++ es) = numbered o ++ numbered es := List.filterMap_append

/-- A step that neither gives an id nor registers a handler. -/
theorem Named.next_of_quiet (h : Named o s) (hnumbered : numbered es = [])
    (hregisters : ∀ n, es.countP (Observation.registers n) = 0) (hnext : t.nextHandlerId = s.nextHandlerId)
    (hpending : ∀ i, (t.calls i).pending = (s.calls i).pending) : Named (o ++ es) t where
  next := by
    rw [numbered_append, hnumbered, List.append_nil, hnext]
    exact h.next
  custody := by
    simp only [numbered_append, hnumbered, List.append_nil, List.countP_append, hregisters, Nat.add_zero, hpending]
    exact h.custody

variable [DecidableEq ι] {c : Call β η}

theorem pending_update : (fun j => (Function.update s.calls i c j).pending) =
    Function.update (fun j => (s.calls j).pending) i c.pending :=
  funext fun j => Function.apply_update (fun _ => Call.pending) s.calls i c j

theorem pending_update_of_eq (hc : c.pending = (s.calls i).pending) (j : ι) :
    (Function.update s.calls i c j).pending = (s.calls j).pending := by
  have hupdate := congrFun (@pending_update _ _ _ _ s i _ c) j
  rw [hc, Function.update_eq_self] at hupdate
  exact hupdate

theorem Named.on {typeId : ℕ} {handler : η} (h : Named o s) (hcount : (numbered o).length < 2 ^ 64)
    (hs : on s i typeId handler = some (t, es)) : Named (o ++ es) t := by
  unfold EventHandlers.on at hs
  split at hs
  · next hidle =>
    cases hs
    have hnumbered : (numbered (o ++ [.numbered s.nextHandlerId])).length = (numbered o).length + 1 := by
      rw [numbered_append, List.length_append]
      rfl
    have hplace : place s.nextHandlerId = (numbered o).length := by rw [h.next, place_next hcount]
    constructor
    · rw [hnumbered]
      have hnext := h.next
      dsimp only
      omega
    · have hregisters (n : ℕ) : [Observation.numbered s.nextHandlerId].countP
          (Observation.registers (β := β) (η := η) n) = 0 := rfl
      simp only [List.countP_append, hregisters, Nat.add_zero]
      rw [hnumbered, State.atCall, pending_update, Call.pending, hplace]
      exact h.custody.acquire (by rw [hidle]; rfl)
  · cases hs

theorem Named.callStep (h : Named o s) (hs : callStep s i = some (t, es)) : Named (o ++ es) t := by
  unfold EventHandlers.callStep at hs
  split at hs
  · cases hs
  · next entry hcall =>
    cases hs
    have hi : (s.calls i).pending = some (place entry.id) := by rw [hcall]; rfl
    have hnumbered : numbered (o ++ [.registered entry]) = numbered o := by
      rw [numbered_append]
      exact List.append_nil _
    have hcount : (fun n => (o ++ [Observation.registered entry]).countP (Observation.registers n)) =
        Function.update (fun n => o.countP (Observation.registers n)) (place entry.id)
          (o.countP (Observation.registers (place entry.id)) + 1) := by
      funext n
      rw [List.countP_append]
      obtain rfl | hne := eq_or_ne n (place entry.id)
      · rw [Function.update_self]
        simp [Observation.registers]
      · rw [Function.update_of_ne hne]
        simp [Observation.registers, hne.symm]
    constructor
    · rw [hnumbered]
      exact h.next
    · rw [hnumbered, hcount]
      simp only [State.atCall]
      rw [pending_update]
      exact h.custody.release hi
  all_goals
    next hcall =>
      cases hs
      exact h.next_of_quiet rfl (fun _ => rfl) rfl (pending_update_of_eq (by rw [hcall]; rfl))

theorem Named.runOne {missed : Bool} (h : Named o s) (hs : runOne s i missed = some (t, es)) : Named (o ++ es) t := by
  unfold EventHandlers.runOne at hs
  split at hs
  · next hidle =>
    split at hs
    · cases hs
      exact h.next_of_quiet rfl (fun _ => rfl) rfl (pending_update_of_eq (by rw [hidle]; rfl))
    · cases hs
      exact h.next_of_quiet rfl (fun _ => rfl) rfl fun _ => rfl
  · cases hs

variable {h : Trace (Action ι β η) (Observation β η)}

theorem named_step {a : Action ι β η} (hn : Named h.events s) (hcount : Counting h s a)
    (hs : machine.step s a = some (t, es)) : Named (h.events ++ es) t := by
  cases a with
  | on i typeId handler => exact hn.on hcount hs
  | off id =>
    cases hs
    exact hn.next_of_quiet rfl (fun _ => rfl) rfl fun _ => rfl
  | dispatch event refused =>
    have heq := Option.some.inj hs
    unfold dispatch at heq
    split at heq
    · cases heq
      exact hn.next_of_quiet rfl (fun _ => rfl) rfl fun _ => rfl
    · split at heq
      all_goals
        cases heq
        exact hn.next_of_quiet rfl (fun _ => rfl) rfl fun _ => rfl
  | runOne i missed => exact hn.runOne hs
  | step i => exact hn.callStep hs

theorem named_of_reach (hr : machine.Reach Counting {} h s) : Named h.events s := by
  apply hr.invariant (I := fun h s => Named h.events s)
  · exact ⟨rfl, Custody.empty ι⟩
  · intro h s a t es hn hcount hs
    rw [Trace.events_append, Trace.events_single]
    exact named_step hn hcount hs

omit [DecidableEq ι] in
theorem not_mem_foldl_register {id : ℕ} {handlers : List (HandlerEntry η)} (hhandlers : ∀ e ∈ handlers, e.id ≠ id)
    (hes : ∀ x ∈ es, Observation.registers (place id) x = false) : ∀ e ∈ es.foldl register handlers, e.id ≠ id := by
  induction es generalizing handlers with
  | nil => exact hhandlers
  | cons x es ih =>
    obtain ⟨hx, hes⟩ := List.forall_mem_cons.mp hes
    refine ih ?_ hes
    cases x with
    | registered entry =>
      intro e he
      obtain he | he := List.mem_append.mp he
      · exact hhandlers e he
      · rw [List.mem_singleton.mp he]
        rintro rfl
        exact absurd rfl (of_decide_eq_false hx)
    | removed other =>
      intro e he
      exact hhandlers e (List.mem_filter.mp he).1
    | _ => exact hhandlers

omit [DecidableEq ι] in
/-- Ids are given once, so what registers the handler is seen once. -/
theorem not_registers_of_registered {before after : List (Observation β η)} {entry : HandlerEntry η}
    (hn : Named o s) (ho : o = before ++ .registered entry :: after) :
    ∀ x ∈ after, Observation.registers (place entry.id) x = false := by
  intro x hx
  have hone := hn.custody.released_le_one (place entry.id)
  have hself : Observation.registers (place entry.id) (.registered entry : Observation β η) = true := decide_eq_true rfl
  rw [ho, List.countP_append, List.countP_cons_of_pos hself] at hone
  have hzero : after.countP (Observation.registers (place entry.id)) = 0 := by omega
  exact Bool.eq_false_iff.mpr (List.countP_eq_zero.mp hzero x hx)

omit [DecidableEq ι] in
theorem Delivering.mem_registry {before rest : List (Observation β η)} {ticket : ℕ} {left : List (HandlerEntry η)}
    (hd : Delivering o ticket left) (ho : o = before ++ .matched ticket :: rest) :
    ∀ e ∈ called ticket o, e ∈ registry before := by
  obtain ⟨front, back, event, heq, hfirst, honce, -, hfront, hback⟩ := hd
  obtain ⟨rfl, -, -⟩ := (List.append_cons_inj_of_notMem hfirst honce).mp (heq.symm.trans ho)
  intro e he
  rw [heq, called_append, hfront, List.nil_append] at he
  have hmem : e ∈ matching (registry front) event := by
    rw [← hback]
    exact List.mem_append_left left he
  exact (List.mem_filter.mp hmem).1

/-- A handler that was registered and then removed is not called for an event that is matched afterwards. -/
theorem off_final {before between after rest : List (Observation β η)} {entry : HandlerEntry η} {ticket : ℕ}
    (hr : machine.Reach Counting {} h s)
    (ho : h.events =
      before ++ .registered entry :: between ++ .removed entry.id :: after ++ .matched ticket :: rest) :
    ∀ e ∈ called ticket h.events, e.id ≠ entry.id := by
  have hmatched : .matched ticket ∈ h.events := by rw [ho]; simp
  obtain ⟨left, hdelivering, -⟩ := (consistent_of_reach hr).delivered.matched ticket hmatched
  intro e he
  have hmem := hdelivering.mem_registry ho e he
  rw [registry, List.foldl_append, List.foldl_cons] at hmem
  refine not_mem_foldl_register ?_ ?_ e hmem
  · intro e he
    exact of_decide_eq_true (List.mem_filter.mp he).2
  · intro x hx
    have hsplit : h.events =
        before ++ .registered entry :: (between ++ .removed entry.id :: after ++ .matched ticket :: rest) := by
      rw [ho]
      simp
    apply not_registers_of_registered (named_of_reach hr) hsplit
    simp [hx]

theorem off_final_one : ∃ h, ∃ s : State Unit Unit Unit 1, machine.Reach Counting {} h s ∧
    h.events = [.numbered 1] ++ .registered ⟨1, 0, ()⟩ :: [.pushed ⟨0, ()⟩, .popped ⟨0, ()⟩] ++ .removed 1 :: [] ++
      .matched 0 :: [] ∧ ∀ e ∈ called 0 h.events, e.id ≠ 1 := by
  obtain ⟨h, s, hr, ho⟩ := Machine.exists_reach (machine : Machine (State Unit Unit Unit 1) _ _) Counting {}
    (fun h _ => h.events = [.numbered 1] ++ .registered ⟨1, 0, ()⟩ :: [.pushed ⟨0, ()⟩, .popped ⟨0, ()⟩] ++
      .removed 1 :: [] ++ .matched 0 :: [])
    [.on () 0 (), .step (), .dispatch (some ⟨0, ()⟩) false, .runOne () false, .off 1, .step ()] (by decide +kernel)
  exact ⟨h, s, hr, ho, off_final hr ho⟩

end Removal

section Order

variable {ι β η : Type} {capacity : ℕ} {o es : List (Observation β η)} {s t : State ι β η capacity} {i : ι}

def tickets (o : List (Observation β η)) : List ℕ := o.filterMap Observation.calledTicket

structure InOrder (o : List (Observation β η)) (s : State ι β η capacity) : Prop where
  sorted : (tickets o).Pairwise (· ≤ ·)
  below : ∀ k ∈ tickets o, k < s.pops
  held : ∀ i k, (s.calls i).ticket = some k → k < s.pops ∧ ∀ j ∈ tickets o, j ≤ k
  single : ∀ i j, (s.calls i).ticket ≠ none → (s.calls j).ticket ≠ none → i = j

theorem tickets_append : tickets (o ++ es) = tickets o ++ tickets es := List.filterMap_append

theorem InOrder.quiet (h : InOrder o s) (hcalled : tickets es = []) (hpops : t.pops = s.pops)
    (hticket : ∀ i k, (t.calls i).ticket = some k → (s.calls i).ticket = some k) : InOrder (o ++ es) t := by
  have htickets : tickets (o ++ es) = tickets o := by rw [tickets_append, hcalled, List.append_nil]
  have hsome (i : ι) (hi : (t.calls i).ticket ≠ none) : (s.calls i).ticket ≠ none := by
    obtain ⟨k, hk⟩ := Option.ne_none_iff_exists'.mp hi
    rw [hticket i k hk]
    exact Option.some_ne_none k
  constructor
  · rw [htickets]
    exact h.sorted
  · rw [htickets, hpops]
    exact h.below
  · intro i k hk
    rw [htickets, hpops]
    exact h.held i k (hticket i k hk)
  · exact fun i j hi hj => h.single i j (hsome i hi) (hsome j hj)

theorem InOrder.call {k : ℕ} {entry : HandlerEntry η} (h : InOrder o s) (hi : (s.calls i).ticket = some k)
    (hpops : t.pops = s.pops) (hticket : ∀ j, (t.calls j).ticket = (s.calls j).ticket) :
    InOrder (o ++ [.called k entry]) t := by
  have htickets : tickets (o ++ [.called k entry]) = tickets o ++ [k] := tickets_append
  obtain ⟨hlt, hle⟩ := h.held i k hi
  constructor
  · rw [htickets, List.pairwise_append]
    refine ⟨h.sorted, List.pairwise_singleton _ k, fun j hj l hl => ?_⟩
    rw [List.mem_singleton.mp hl]
    exact hle j hj
  · rw [htickets, hpops]
    intro j hj
    obtain hj | hj := List.mem_append.mp hj
    · exact h.below j hj
    · rw [List.mem_singleton.mp hj]
      exact hlt
  · intro i' k' hi'
    rw [hticket] at hi'
    obtain rfl := h.single i' i (by simp [hi']) (by simp [hi])
    obtain rfl := Option.some.inj (hi.symm.trans hi')
    rw [htickets, hpops]
    refine ⟨hlt, fun j hj => ?_⟩
    obtain hj | hj := List.mem_append.mp hj
    · exact hle j hj
    · exact Nat.le_of_eq (List.mem_singleton.mp hj)
  · simp only [hticket]
    exact h.single

variable [DecidableEq ι]

theorem InOrder.callStep (h : InOrder o s) (hs : callStep s i = some (t, es)) : InOrder (o ++ es) t := by
  have hsame {c : Call β η} (hc : (s.calls i).ticket = c.ticket) (j : ι) :
      (Function.update s.calls i c j).ticket = (s.calls j).ticket := by
    rw [congrFun ticket_update j, ← hc, Function.update_eq_self]
  unfold EventHandlers.callStep at hs
  split at hs
  · cases hs
  · next entry hcall =>
    cases hs
    refine h.quiet rfl rfl fun j k hk => ?_
    rwa [State.atCall, hsame (by rw [hcall]; rfl)] at hk
  · next ticket event hcall =>
    cases hs
    refine h.quiet rfl rfl fun j k hk => ?_
    rwa [State.atCall, hsame (by rw [hcall]; rfl)] at hk
  · next ticket event entry matched hcall =>
    cases hs
    exact h.call (by rw [hcall]; rfl) rfl (hsame (by rw [hcall]; rfl))
  · next ticket event hcall =>
    cases hs
    refine h.quiet rfl rfl fun j k hk => ?_
    rw [State.atCall, congrFun ticket_update j] at hk
    exact (Custody.update_none_eq_some hk).1
  · next ticket event matched hcall =>
    cases hs
    refine h.quiet rfl rfl fun j k hk => ?_
    rwa [State.atCall, hsame (by rw [hcall]; rfl)] at hk

theorem InOrder.runOne {missed : Bool} (h : InOrder o s) (hloop : ∀ j, (s.calls j).ticket = none)
    (hs : runOne s i missed = some (t, es)) : InOrder (o ++ es) t := by
  unfold EventHandlers.runOne at hs
  split at hs
  · split at hs
    · next event queue hpop =>
      cases hs
      have htickets : tickets (o ++ [.popped event]) = tickets o := by
        rw [tickets_append]
        exact List.append_nil _
      have hheld (j : ι) (k : ℕ) (hj : (Function.update s.calls i (.snapshot s.pops event) j).ticket = some k) :
          j = i ∧ k = s.pops := by
        rw [congrFun ticket_update j] at hj
        have hnone : ∀ l, (s.calls l).ticket ≠ some s.pops := by simp [hloop]
        obtain heq | ⟨hk, -⟩ := Custody.update_some_eq_some hnone hj
        · exact heq
        · rw [hloop] at hk
          cases hk
      constructor
      · rw [htickets]
        exact h.sorted
      · rw [htickets]
        exact fun k hk => Nat.lt_succ_of_lt (h.below k hk)
      · intro j k hk
        obtain ⟨rfl, rfl⟩ := hheld j k hk
        rw [htickets]
        exact ⟨Nat.lt_succ_self _, fun j hj => Nat.le_of_lt (h.below j hj)⟩
      · intro j l hj hl
        obtain ⟨k, hk⟩ := Option.ne_none_iff_exists'.mp hj
        obtain ⟨m, hm⟩ := Option.ne_none_iff_exists'.mp hl
        rw [(hheld j k hk).1, (hheld l m hm).1]
    · cases hs
      exact h.quiet rfl rfl fun _ _ hk => hk
  · cases hs

variable {h : Trace (Action ι β η) (Observation β η)}

theorem inOrder_step {a : Action ι β η} (ho : InOrder o s) (hloop : OneLoop h s a)
    (hs : machine.step s a = some (t, es)) : InOrder (o ++ es) t := by
  cases a with
  | on i typeId handler =>
    change on s i typeId handler = some (t, es) at hs
    unfold EventHandlers.on at hs
    split at hs
    · next hidle =>
      cases hs
      refine ho.quiet rfl rfl fun j k hk => ?_
      rw [State.atCall, congrFun ticket_update j] at hk
      exact (Custody.update_none_eq_some hk).1
    · cases hs
  | off id =>
    cases hs
    exact ho.quiet rfl rfl fun _ _ hk => hk
  | dispatch event refused =>
    have heq := Option.some.inj hs
    unfold dispatch at heq
    split at heq
    · cases heq
      exact ho.quiet rfl rfl fun _ _ hk => hk
    · split at heq
      all_goals
        cases heq
        exact ho.quiet rfl rfl fun _ _ hk => hk
  | runOne i missed => exact ho.runOne hloop hs
  | step i => exact ho.callStep hs

/-- While one loop runs, the handlers of an event are called after those of the events popped before it. -/
theorem calls_in_order (hr : machine.Reach OneLoop {} h s) : (tickets h.events).Pairwise (· ≤ ·) := by
  have hinvariant : InOrder h.events s := by
    apply hr.invariant (I := fun h s => InOrder h.events s)
    · exact ⟨.nil, by simp [tickets], by simp [Call.ticket], by simp [Call.ticket]⟩
    · intro h s a t es ho hloop hs
      rw [Trace.events_append, Trace.events_single]
      exact inOrder_step ho hloop hs
  exact hinvariant.sorted

theorem calls_in_order_two : ∃ h, ∃ s : State Unit Unit Unit 2, machine.Reach OneLoop {} h s ∧
    tickets h.events = [0, 1] ∧ (tickets h.events).Pairwise (· ≤ ·) := by
  obtain ⟨h, s, hr, htickets⟩ := Machine.exists_reach (machine : Machine (State Unit Unit Unit 2) _ _) OneLoop {}
    (fun h _ => tickets h.events = [0, 1])
    [.on () 0 (), .step (), .dispatch (some ⟨0, ()⟩) false, .dispatch (some ⟨0, ()⟩) false, .runOne () false, .step (),
      .step (), .step (), .step (), .runOne () false, .step (), .step ()] (by decide +kernel)
  exact ⟨h, s, hr, htickets, calls_in_order hr⟩

end Order

end Klett.Cunk.EventHandlers
