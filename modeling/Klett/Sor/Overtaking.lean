import Klett.Lib.Machine
import Klett.Sor.OrderQueues

namespace Klett.Sor.Overtaking

open Klett.Lib Klett.Sor.System

/-- A cancel that `cancel_order` has queued, with what there was when it did so: the orders that
`submit_order` had queued before, those still in the queue, and where the order thread was. -/
structure Ticket where
  request : CancelRequest
  before : List Order
  queued : List Order
  thread : OrderPc
  deriving DecidableEq

structure Answer where
  ticket : Ticket
  taken : List Order
  deriving DecidableEq

structure History where
  submitted : List Order := []
  taken : List Order := []
  waiting : List Ticket := []
  answered : List Answer := []

namespace Ticket

variable (c : Ticket)

def names (order : Order) : Bool := order.id = c.request.orderId

/-- It was queued between the two drains of the loop, with an order that it names still waiting for
the next one. -/
def Overtakes : Prop := c.thread = .cancels ∧ ∃ order ∈ c.queued, c.names order = true

instance : Decidable c.Overtakes := inferInstanceAs (Decidable (_ ∧ _))

end Ticket

def Answer.InTime (y : Answer) : Prop := y.ticket.before.filter y.ticket.names <+: y.taken.filter y.ticket.names

instance (y : Answer) : Decidable y.InTime := inferInstanceAs (Decidable (_ <+: _))

section Run

variable {V : Type} [VenueAdapter V]

def record (x : History) (s : System V) (a : Action V) (_ : List Event) : History where
  submitted := x.submitted ++ (s.queuedOrder a).toList
  taken := x.taken ++ (s.takenOrder a).toList
  waiting := x.waiting.drop (s.takenCancel a).toList.length ++
    (s.queuedCancel a).toList.map fun request =>
      ⟨request, x.submitted, s.gateway.orderQueue.items, s.orderThread⟩
  answered := x.answered ++
    (x.waiting.take (s.takenCancel a).toList.length).map fun ticket => ⟨ticket, x.taken⟩

structure Ordered (s : System V) (x : History) : Prop where
  supervised : s.Supervised
  orders : s.gateway.orderQueue.Accounts x.submitted x.taken
  cancels : x.waiting.map Ticket.request = s.gateway.cancelQueue.items
  before : ∀ c ∈ x.waiting, c.before <+: x.submitted
  draining : s.orderThread = .cancels → ∀ c ∈ x.waiting,
    c.Overtakes ↔ ∃ order ∈ c.before.drop x.taken.length, c.names order = true
  idle : s.orderThread ≠ .cancels → ∀ c ∈ x.waiting, ¬c.Overtakes
  answered : ∀ y ∈ x.answered, y.InTime ↔ ¬y.ticket.Overtakes

theorem filter_prefix_iff {α : Type} {l m n : List α} (hl : l <+: n) (hm : m <+: n) (p : α → Bool) :
    l.filter p <+: m.filter p ↔ ¬∃ x ∈ l.drop m.length, p x = true := by
  rcases List.prefix_or_prefix_of_prefix hl hm with hle | ⟨rest, rfl⟩
  · rw [List.drop_eq_nil_of_le hle.length_le]
    simp [hle.filter p]
  · rw [List.drop_left, List.filter_append]
    constructor
    · rintro h ⟨x, hx, hp⟩
      have hlen := h.length_le
      rw [List.length_append] at hlen
      have hpos := List.length_pos_of_mem (List.mem_filter.mpr ⟨hx, hp⟩)
      omega
    · intro h
      have hnone : rest.filter p = [] := List.filter_eq_nil_iff.mpr fun x hx hp => h ⟨x, hx, hp⟩
      simp [hnone]

variable {P : Platform} {s s' : System V} {x : History} {a : Action V} {es : List Event}

omit [VenueAdapter V] in
theorem Ordered.unanswered (h : Ordered s x) {c : Ticket} (hc : c ∈ x.waiting) :
    (Answer.mk c x.taken).InTime ↔ ¬∃ order ∈ c.before.drop x.taken.length, c.names order = true :=
  filter_prefix_iff (h.before c hc) ⟨_, h.orders.symm⟩ c.names

theorem waiting_record {c : Ticket} (hc : c ∈ (record x s a es).waiting) : c ∈ x.waiting ∨
    s.queuedCancel a ≠ none ∧ c.before = x.submitted ∧ c.queued = s.gateway.orderQueue.items ∧
      c.thread = s.orderThread := by
  rcases List.mem_append.mp hc with hc | hc
  · exact .inl (List.mem_of_mem_drop hc)
  · obtain ⟨request, hrequest, rfl⟩ := List.mem_map.mp hc
    rw [Option.mem_toList] at hrequest
    exact .inr ⟨Option.ne_none_iff_exists'.mpr ⟨request, hrequest⟩, rfl, rfl, rfl⟩

omit [VenueAdapter V] in
theorem Ordered.untaken (h : Ordered s x) : x.submitted.drop x.taken.length = s.gateway.orderQueue.items := by
  rw [h.orders, List.drop_left]

theorem takenOrder_eq_none (h : s.orderThread = .cancels ∨ s.gateway.orderQueue.items = []) :
    s.takenOrder a = none := by
  by_contra htaken
  rcases h with hthread | hempty
  · rw [s.takenOrder_thread htaken] at hthread
    cases hthread
  · have hprefix := s.takenOrder_prefix a
    obtain ⟨order, horder⟩ := Option.ne_none_iff_exists'.mp htaken
    rw [hempty, horder, Option.toList_some, List.prefix_nil] at hprefix
    cases hprefix

theorem Ordered.step (h : Ordered s x) (hstep : (machine P).step s a = some (s', es)) :
    Ordered s' (record x s a es) := by
  have hm := step_moves h.supervised hstep
  constructor
  case supervised => exact hm.supervised
  case orders =>
    have horders := hm.orders
    rw [Fifo.Accounts, record, h.orders, List.append_assoc, ← horders, List.append_assoc]
  case cancels =>
    obtain ⟨rest, hrest⟩ := s.takenCancel_prefix a
    have hcancels := hm.cancels
    rw [← hrest, List.append_assoc, List.append_cancel_left_eq] at hcancels
    rw [hcancels, record, List.map_append, List.map_drop, h.cancels, ← hrest, List.drop_left, List.map_map]
    simp [Function.comp_def]
  case before =>
    intro c hc
    rcases waiting_record hc with hc | ⟨-, hbefore, -, -⟩
    · exact (h.before c hc).trans (List.prefix_append _ _)
    · rw [hbefore]
      exact List.prefix_append _ _
  case draining =>
    intro hthread c hc
    have hentered := hm.entered hthread
    rw [record, takenOrder_eq_none hentered, Option.toList_none, List.append_nil]
    by_cases hwas : s.orderThread = .cancels
    · rcases waiting_record hc with hc | ⟨-, hbefore, hqueued, hcancels⟩
      · exact h.draining hwas c hc
      · rw [Ticket.Overtakes, hcancels, hqueued, hbefore, h.untaken]
        exact and_iff_right hwas
    · -- the drain begins: everything submitted has been taken
      have hempty := hentered.resolve_left hwas
      have hnone : c.before.drop x.taken.length = [] := by
        have hle : x.submitted.length ≤ x.taken.length := by
          rw [h.orders, hempty, List.append_nil]
        apply List.drop_eq_nil_of_le
        rcases waiting_record hc with hc | ⟨-, hbefore, -⟩
        · exact (h.before c hc).length_le.trans hle
        · rw [hbefore]
          exact hle
      have hidle : ¬c.Overtakes := by
        rcases waiting_record hc with hc | ⟨-, -, -, hcancels⟩
        · exact h.idle hwas c hc
        · rintro ⟨hthread, -⟩
          exact hwas (hcancels.symm.trans hthread)
      simp [hnone, hidle]
  case idle =>
    intro hthread c hc
    by_cases hwas : s.orderThread = .cancels
    · -- the drain has ended: nothing was waiting, and nothing has come
      obtain ⟨hempty, hnone⟩ := (hm.left hwas).resolve_left hthread
      rcases waiting_record hc with hc | ⟨hsome, -⟩
      · rw [← h.cancels, List.map_eq_nil_iff] at hempty
        rw [hempty] at hc
        cases hc
      · exact (hsome hnone).elim
    · rcases waiting_record hc with hc | ⟨-, -, -, hc⟩
      · exact h.idle hwas c hc
      · rintro ⟨hcancels, -⟩
        exact hwas (hc.symm.trans hcancels)
  case answered =>
    intro y hy
    rcases List.mem_append.mp hy with hy | hy
    · exact h.answered y hy
    · obtain ⟨c, hc, rfl⟩ := List.mem_map.mp hy
      have hthread : s.orderThread = .cancels := by
        apply takenCancel_thread (a := a)
        intro hnone
        rw [hnone] at hc
        simp at hc
      have hc := List.mem_of_mem_take hc
      rw [h.unanswered hc, h.draining hthread c hc]

/-- Whenever the loop takes a cancel, the orders that it names and that were submitted before it have
been taken and processed, except when the cancel was queued between the two drains with such an order
still waiting. -/
theorem taken_in_time_iff {venues : ℕ → Option V} {engine : RoutingEngine} {md : MarketDataAggregator}
    {limits : RiskLimits} {symbolLimits : Symbol → Option RiskLimits} {limiter : RateLimiter}
    {h : Trace (Action V) Event}
    (hr : ((machine P).recording record).Run
      (initialized venues engine md limits symbolLimits limiter, {}) h (s, x)) :
    ∀ y ∈ x.answered, y.InTime ↔ ¬y.ticket.Overtakes := by
  refine (hr.invariant (I := fun _ y => Ordered y.1 y.2) ?_ fun k y a z es hi _ hstep => ?_).answered
  · refine ⟨fun hlive => (hlive rfl).elim, rfl, rfl, ?_, ?_, ?_, ?_⟩ <;> simp
  · obtain ⟨hmain, hrecord⟩ := Machine.recording_step.mp hstep
    rw [hrecord]
    exact hi.step hmain

end Run

/-- The client has its order in the queue before the loop has taken it up, and cancels it then. -/
theorem taken_in_time_order_first : ∃ h s x,
    ((machine .exact).recording record).Run (calm, {}) h (s, x) ∧
      x.answered.map (fun y => (y.ticket.request.orderId, y.taken.map Order.id)) = [(1, [1])] ∧
      ∀ y ∈ x.answered, y.InTime ↔ ¬y.ticket.Overtakes := by
  obtain ⟨h, ⟨s, x⟩, hr, hone⟩ := Machine.exists_run ((machine .exact).recording record) (calm, {})
    (fun _ y => y.2.answered.map (fun y => (y.ticket.request.orderId, y.taken.map Order.id)) = [(1, [1])])
    [.start, .allocateOrderId, .submitOrder { buyTen with id := 1 }, .cancelOrder { orderId := 1 },
      .orderLoop {}, .orderLoop {}, .orderLoop {}, .orderLoop {}] (by decide +kernel)
  exact ⟨h, s, x, hr, hone, taken_in_time_iff hr⟩

/-- The client submits and cancels while the loop is between its two drains: the cancel is dropped for
an unknown order, and then the order is worked on. -/
theorem cancel_overtakes : ∃ h x, ((machine .exact).recording record).Run (calm, {}) h x ∧
    (∃ y ∈ x.2.answered, y.ticket.before.map Order.id = [1] ∧ y.ticket.request.orderId = 1 ∧ ¬y.InTime) ∧
      Event.cancelTaken 1 ∉ h.events ∧ ∃ e ∈ h.events, e.Dispatches 1 :=
  Machine.exists_run _ _ _
    [.start, .orderLoop {}, .orderLoop {}, .allocateOrderId, .submitOrder { buyTen with id := 1 },
      .cancelOrder { orderId := 1 }, .orderLoop {}, .orderLoop {}, .orderLoop {}, .orderLoop {}]
    (by decide +kernel)

end Klett.Sor.Overtaking
