import Klett.Lib.Machine
import Klett.Sor.ExecutionHandler
import Klett.Sor.SimulatedExchange

namespace Klett.Sor

open Klett.Lib

def Order.after (o : Order) (reports : List ExecutionReport) : Order :=
  reports.foldl (fun o r => (o.onReport r).getD o) o

@[simp] theorem Order.after_nil (o : Order) : o.after [] = o := rfl

@[simp] theorem Order.after_append (o : Order) (rs ss : List ExecutionReport) :
    o.after (rs ++ ss) = (o.after rs).after ss := by
  simp [Order.after]

@[simp] theorem Order.after_single (o : Order) (r : ExecutionReport) :
    o.after [r] = (o.onReport r).getD o := rfl

namespace ExecutionHandler

def processAll (h : ExecutionHandler) (reports : List ExecutionReport) : ExecutionHandler :=
  reports.foldl (fun h r => (h.onExecutionReport r).1) h

theorem onExecutionReport_order {h : ExecutionHandler} {o : Order} {r : ExecutionReport}
    (ho : h.orders r.orderId = some o) (hid : o.id = r.orderId)
    (hself : h.childToParent r.orderId ≠ some r.orderId) :
    (h.onExecutionReport r).1.orders r.orderId = some ((o.onReport r).getD o) := by
  cases hr : o.onReport r with
  | none => simp [onExecutionReport, ho, hr]
  | some o' =>
    obtain ⟨-, -, hid', -⟩ := Order.onReport_fields hr
    have hother : h.childToParent o'.id ≠ some r.orderId := by
      rw [hid', hid]
      exact hself
    exact onExecutionReport_self ho hr hother

theorem onReport_id {o : Order} (r : ExecutionReport) : ((o.onReport r).getD o).id = o.id := by
  cases hr : o.onReport r with
  | none => rfl
  | some o' =>
    obtain ⟨-, -, hid, -⟩ := Order.onReport_fields hr
    exact hid

theorem processAll_order {h : ExecutionHandler} {o : Order} {reports : List ExecutionReport}
    (ho : h.orders o.id = some o) (hself : h.childToParent o.id ≠ some o.id)
    (hr : ∀ r ∈ reports, r.orderId = o.id) :
    (h.processAll reports).orders o.id = some (o.after reports) := by
  induction reports generalizing h o with
  | nil => exact ho
  | cons r reports ih =>
    have hid : r.orderId = o.id := hr r List.mem_cons_self
    have hstep := onExecutionReport_order (r := r) (by rw [hid]; exact ho) hid.symm
      (by rw [hid]; exact hself)
    obtain ⟨orders, hframe⟩ := h.onExecutionReport_frame r
    have hnext := ih (h := (h.onExecutionReport r).1) (o := (o.onReport r).getD o)
      (by rw [onReport_id, ← hid]; exact hstep) (by rw [onReport_id, hframe]; exact hself)
      fun s hs => by rw [onReport_id]; exact hr s (List.mem_cons_of_mem _ hs)
    rw [onReport_id] at hnext
    exact hnext

end ExecutionHandler

namespace ExchangeAgreement

open SimulatedExchange

inductive Action
  | connect
  | disconnect
  | sendOrder (order : Order)
  | cancelOrder (request : CancelRequest)
  | setMarketPrice (bid ask : ℤ)
  | processMatching (draws : ℕ → Draws)

def machine (P : Platform) : Machine SimulatedExchange Action ExecutionReport where
  step x
    | .connect => some (x.connect.2, [])
    | .disconnect => some (x.disconnect, [])
    | .sendOrder order => some (x.sendOrder order).2
    | .cancelOrder request => some ((x.cancelOrder request).2, [])
    | .setMarketPrice bid ask => some (x.setMarketPrice bid ask, [])
    | .processMatching draws => x.processMatching P draws

/-- The exchange is about to reject the order with this id although part of it is filled. -/
def LateReject (id : ℕ) (x : SimulatedExchange) (d : Draws) : Prop :=
  ∃ internal, x.pendingQueue.head? = some id ∧ x.activeOrders id = some internal ∧
    internal.pendingCancel = false ∧ 0 < internal.order.filledQuantity ∧
    d.reject < x.config.rejectProbability

/-- No late reject of the order, and its id is not given to a second order once it is dropped. -/
def NoLateReject (P : Platform) (id : ℕ) : Machine.Guard SimulatedExchange Action ExecutionReport
  | _, x, .processMatching draws =>
    TurnsMeet P (fun x d => ¬LateReject id x d) draws x.pendingQueue.length 0 x
  | _, x, .sendOrder order => order.id = id → (x.activeOrders id).isSome
  | _, _, _ => True

variable {P : Platform} {x : SimulatedExchange}

theorem keyed_step {x' : SimulatedExchange} {a : Action} {reports : List ExecutionReport}
    (hk : Keyed x) (h : (machine P).step x a = some (x', reports)) : Keyed x' := by
  cases a with
  | connect =>
    cases h
    unfold connect
    split_ifs
    · exact hk
    · exact hk
  | disconnect => cases h; exact hk
  | sendOrder order =>
    have hsent := hk.sendOrder order
    rw [Option.some.inj h] at hsent
    exact hsent
  | cancelOrder request => cases h; exact hk.cancelOrder request
  | setMarketPrice bid ask => cases h; exact hk
  | processMatching draws => exact hk.processMatching h

def liveState (filled : ℤ) : OrderState := if filled = 0 then .accepted else .partiallyFilled

section Reports

variable {v o o' : Order} {r : ExecutionReport}

theorem onReport_closing (hv : v.state = liveState o.filledQuantity)
    (hf : v.filledQuantity = o.filledQuantity) (hr : Closing o r)
    (hreject : r.state = .rejected → o.filledQuantity = 0) :
    ((v.onReport r).getD v).state = r.state ∧ ((v.onReport r).getD v).filledQuantity = r.cumQuantity := by
  have hlast : ¬0 < r.lastQuantity := by rw [hr.lastQuantity]; exact lt_irrefl 0
  have hfilled : ∀ e, (((v.beforeCancel r.state).apply e).recordFill r).filledQuantity = r.cumQuantity := by
    intro e
    rw [Order.recordFill_filledQuantity, if_neg hlast, hr.cumQuantity]
    simpa using hf
  rcases hr.state with hs | hs
  · have hstate : ((v.beforeCancel .canceled).apply .cancelAck).state = .canceled := by
      unfold liveState at hv
      split_ifs at hv <;> simp [Order.beforeCancel, hv, Order.apply_state, OrderStateMachine.apply]
    simpa [Order.onReport, hs, reportEvent, hstate] using hfilled .cancelAck
  · have hstate : ((v.beforeCancel .rejected).apply .reject).state = .rejected := by
      rw [liveState, if_pos (hreject hs)] at hv
      simp [Order.beforeCancel, hv, Order.apply_state, OrderStateMachine.apply]
    simpa [Order.onReport, hs, reportEvent, hstate] using hfilled .reject

theorem onReport_filling (hv : v.state = liveState o.filledQuantity) (hr : Filling o o' r) :
    ((v.onReport r).getD v).state = r.state ∧ ((v.onReport r).getD v).filledQuantity = r.cumQuantity := by
  have hfilled : ∀ e, (((v.beforeCancel r.state).apply e).recordFill r).filledQuantity = r.cumQuantity := by
    intro e
    rw [Order.recordFill_filledQuantity, if_pos hr.lastQuantity_pos]
  have hs := hr.state
  split_ifs at hs with hfull
  · have hstate : ((v.beforeCancel .filled).apply .fill).state = .filled := by
      unfold liveState at hv
      split_ifs at hv <;> simp [Order.beforeCancel, hv, Order.apply_state, OrderStateMachine.apply]
    simpa [Order.onReport, hs, reportEvent, hstate] using hfilled .fill
  · have hstate : ((v.beforeCancel .partiallyFilled).apply .partialFill).state = .partiallyFilled := by
      unfold liveState at hv
      split_ifs at hv <;> simp [Order.beforeCancel, hv, Order.apply_state, OrderStateMachine.apply]
    simpa [Order.onReport, hs, reportEvent, hstate] using hfilled .partialFill

end Reports

def Synced (o : Order) (reports : List ExecutionReport) : Prop :=
  ∀ pre r, pre ++ [r] <+: reports → (o.after (pre ++ [r])).state = r.state ∧
    (o.after (pre ++ [r])).filledQuantity = r.cumQuantity

theorem Synced.append {o : Order} {reports : List ExecutionReport} {r : ExecutionReport}
    (h : Synced o reports)
    (hr : (((o.after reports).onReport r).getD (o.after reports)).state = r.state ∧
      (((o.after reports).onReport r).getD (o.after reports)).filledQuantity = r.cumQuantity) :
    Synced o (reports ++ [r]) := by
  intro pre s hpre
  rcases List.prefix_concat_iff.mp hpre with heq | hold
  · obtain ⟨rfl, hs⟩ := List.append_inj' heq rfl
    obtain rfl : s = r := by simpa using hs
    simpa using hr
  · exact h pre s hold

def about (id : ℕ) (reports : List ExecutionReport) : List ExecutionReport :=
  reports.filter fun r => r.orderId = id

@[simp] theorem about_append (id : ℕ) (rs ss : List ExecutionReport) :
    about id (rs ++ ss) = about id rs ++ about id ss := by
  simp [about]

theorem about_self {id : ℕ} {rs : List ExecutionReport} (h : ∀ r ∈ rs, r.orderId = id) :
    about id rs = rs :=
  List.filter_eq_self.mpr fun r hr => by simpa using h r hr

theorem about_other {id : ℕ} {rs : List ExecutionReport} (h : ∀ r ∈ rs, r.orderId ≠ id) :
    about id rs = [] :=
  List.filter_eq_nil_iff.mpr fun r hr => by simpa using h r hr

theorem about_append_other {id : ℕ} {rs ss : List ExecutionReport} (h : ∀ r ∈ ss, r.orderId ≠ id) :
    about id (rs ++ ss) = about id rs := by
  rw [about_append, about_other h, List.append_nil]

structure LiveView (v o : Order) : Prop where
  state : v.state = liveState o.filledQuantity
  filled : v.filledQuantity = o.filledQuantity
  nonneg : 0 ≤ o.filledQuantity
  fok : isFok o = true → o.filledQuantity = 0

structure InStep (o : Order) (x : SimulatedExchange) (reports : List ExecutionReport) : Prop where
  keyed : Keyed x
  synced : Synced o reports
  live : ∀ internal, x.activeOrders o.id = some internal → LiveView (o.after reports) internal.order
  dropped : x.activeOrders o.id = none → (o.after reports).isTerminal = true

theorem LiveView.filling {v o o' : Order} {r : ExecutionReport} (h : LiveView v o) (hf : Filling o o' r)
    (hleft : 0 < o'.leavesQty) (hfok : isFok o = false) : LiveView ((v.onReport r).getD v) o' := by
  obtain ⟨hstate, hfilled⟩ := onReport_filling h.state hf
  obtain ⟨avg, ho'⟩ := hf.order
  have hcum := hf.cumQuantity
  have hpos := hf.lastQuantity_pos
  have hnonneg := h.nonneg
  have hq : o'.filledQuantity = o.filledQuantity + r.lastQuantity := by rw [ho']
  refine ⟨?_, hfilled.trans hcum, by omega, fun hf' => ?_⟩
  · rw [hstate, hf.state, if_neg hleft.ne', liveState, if_neg (by omega)]
  · have hsame : isFok o' = isFok o := by rw [ho']; rfl
    rw [hsame, hfok] at hf'
    cases hf'

variable {o : Order} {reports new : List ExecutionReport} {x' : SimulatedExchange} {d : Draws}

theorem InStep.turn {internal : InternalOrder} {m : Matched} (hi : InStep o x reports)
    (hactive : x.activeOrders o.id = some internal) (hout : Outcome x d internal.order m)
    (hlate : d.reject < x.config.rejectProbability → internal.order.filledQuantity = 0 ∨
      ∃ r, m = ⟨none, [r]⟩ ∧ r.state = .canceled) :
    Synced o (reports ++ m.reports) ∧
      (∀ o' ∈ m.active, LiveView (o.after (reports ++ m.reports)) o') ∧
      (m.active = none → (o.after (reports ++ m.reports)).isTerminal = true) := by
  have hlive := hi.live internal hactive
  cases hout with
  | rests => simpa using ⟨hi.synced, hlive⟩
  | @closes r hr hwhy =>
    have hreject : r.state = .rejected → internal.order.filledQuantity = 0 := by
      intro hs
      rcases hwhy hs with hdraw | hfok
      · rcases hlate hdraw with hzero | ⟨r', hm, hcancel⟩
        · exact hzero
        · obtain rfl : r = r' := by simpa using hm
          rw [hs] at hcancel
          cases hcancel
      · exact hlive.fok hfok
    have hagree := onReport_closing hlive.state hlive.filled hr hreject
    refine ⟨hi.synced.append hagree, by simp, fun _ => ?_⟩
    rw [Order.after_append, Order.after_single, Order.isTerminal, hagree.1]
    rcases hr.state with hs | hs <;> rw [hs] <;> rfl
  | @fills o' r hf hfull =>
    have hagree := onReport_filling hlive.state hf
    refine ⟨hi.synced.append hagree, by simp, fun _ => ?_⟩
    rw [Order.after_append, Order.after_single, Order.isTerminal, hagree.1, hf.state, if_pos hfull]
    rfl
  | @fillsPart o' r hf hleft hfok =>
    have hagree := onReport_filling hlive.state hf
    refine ⟨hi.synced.append hagree, ?_, by simp⟩
    simpa using hlive.filling hf hleft hfok
  | @fillsPartAndCloses o' r c hf hleft hfok hc hcancel =>
    have hagree := onReport_filling hlive.state hf
    have hnext := hlive.filling hf hleft hfok
    have hclose := onReport_closing hnext.state hnext.filled hc fun hs => by rw [hcancel] at hs; cases hs
    have hsynced : Synced o (reports ++ [r] ++ [c]) :=
      (hi.synced.append hagree).append (by simpa using hclose)
    refine ⟨by simpa using hsynced, by simp, fun _ => ?_⟩
    have hstate : (o.after (reports ++ [r, c])).state = .canceled := by
      rw [show reports ++ [r, c] = reports ++ [r] ++ [c] by simp, Order.after_append, Order.after_append,
        Order.after_single, Order.after_single, hclose.1, hcancel]
    rw [Order.isTerminal, hstate]
    rfl

theorem InStep.matchFront (hi : InStep o x reports) (hlate : ¬LateReject o.id x d)
    (h : x.matchFront P d = some (x', new)) : InStep o x' (reports ++ about o.id new) := by
  have hkeyed := hi.keyed.matchFront h
  obtain ⟨queue, rfl, rfl, -⟩ | ⟨id, queue, internal, m, hqueue, hactive, rfl, rfl, hout, hcancel⟩ :=
    matchFront_cases h
  · simpa [about] using (⟨hkeyed, hi.synced, hi.live, hi.dropped⟩ : InStep o _ reports)
  · have hreports : ∀ r ∈ m.reports, r.orderId = id := fun r hr =>
      (hout.id_eq.2 r hr).trans (hi.keyed id internal hactive)
    by_cases hid : id = o.id
    · subst hid
      obtain ⟨hsynced, hlive, hdropped⟩ := hi.turn hactive hout fun hdraw => by
        rcases hcancel with hpending | hclosed
        · refine .inl (le_antisymm (not_lt.mp fun hpos => hlate ?_) (hi.live internal hactive).nonneg)
          exact ⟨internal, by rw [hqueue]; rfl, hactive, hpending, hpos, hdraw⟩
        · exact .inr hclosed
      rw [about_self hreports]
      refine ⟨hkeyed, hsynced, ?_, ?_⟩
      · intro i hset
        rw [settle_self] at hset
        obtain ⟨o', ho', rfl⟩ := Option.map_eq_some_iff.mp hset
        exact hlive o' ho'
      · intro hset
        rw [settle_self] at hset
        exact hdropped (Option.map_eq_none_iff.mp hset)
    · have hne : ∀ r ∈ m.reports, r.orderId ≠ o.id := fun r hr heq => hid ((hreports r hr).symm.trans heq)
      rw [about_other hne, List.append_nil]
      refine ⟨hkeyed, hi.synced, ?_, ?_⟩
      · intro i hset
        rw [settle_other (Ne.symm hid)] at hset
        exact hi.live i hset
      · intro hset
        rw [settle_other (Ne.symm hid)] at hset
        exact hi.dropped hset

theorem InStep.same (hi : InStep o x reports) (hk : Keyed x')
    (h : ∀ internal, x'.activeOrders o.id = some internal → ∃ i, x.activeOrders o.id = some i ∧
      i.order = internal.order) (hnone : x'.activeOrders o.id = none → x.activeOrders o.id = none) :
    InStep o x' reports := by
  refine ⟨hk, hi.synced, fun internal hset => ?_, fun hset => hi.dropped (hnone hset)⟩
  obtain ⟨i, hactive, heq⟩ := h internal hset
  rw [← heq]
  exact hi.live i hactive

theorem InStep.step {k : Trace Action ExecutionReport} {a : Action} (hi : InStep o x reports)
    (hg : NoLateReject P o.id k x a)
    (h : (machine P).step x a = some (x', new)) : InStep o x' (reports ++ about o.id new) := by
  have hk := keyed_step hi.keyed h
  cases a with
  | connect =>
    cases h
    have hsame : (x.connect.2).activeOrders = x.activeOrders := by
      unfold connect
      split_ifs <;> rfl
    simpa [about] using hi.same hk (fun i hset => ⟨i, by rw [← hsame]; exact hset, rfl⟩)
      fun hset => by rw [← hsame]; exact hset
  | disconnect =>
    cases h
    simpa [about] using hi.same hk (fun i hset => ⟨i, hset, rfl⟩) fun hset => hset
  | setMarketPrice bid ask =>
    cases h
    simpa [about] using hi.same hk (fun i hset => ⟨i, hset, rfl⟩) fun hset => hset
  | sendOrder order =>
    have hsent : (x.sendOrder order).2 = (x', new) := Option.some.inj h
    obtain hsame | ⟨-, hfree, htaken⟩ := x.sendOrder_cases order
    · rw [hsame] at hsent
      cases hsent
      simpa [about] using hi
    · have hne : order.id ≠ o.id := fun heq => by
        have := hg heq
        rw [← heq, hfree] at this
        cases this
      rw [htaken] at hsent
      cases hsent
      have hother : about o.id [x.ackReport order] = [] := about_other (by simpa [ackReport] using hne)
      rw [hother, List.append_nil]
      exact hi.same hk (fun i hset => ⟨i, by simpa [hne.symm] using hset, rfl⟩)
        fun hset => by simpa [hne.symm] using hset
  | cancelOrder request =>
    cases h
    rw [show about o.id [] = [] from rfl, List.append_nil]
    obtain hsame | ⟨internal, hactive, hset⟩ := x.cancelOrder_cases request
    · rwa [hsame]
    · rw [hset] at hk ⊢
      by_cases hid : o.id = request.orderId
      · refine hi.same hk (fun i hi' => ⟨internal, by rw [hid]; exact hactive, ?_⟩) fun hnone => ?_
        · obtain rfl : _ = i := by simpa [hid] using hi'
          rfl
        · simp [hid] at hnone
      · exact hi.same hk (fun i hi' => ⟨i, by simpa [hid] using hi', rfl⟩)
          fun hnone => by simpa [hid] using hnone
  | processMatching draws =>
    have hloop := matchTurns_invariant (I := fun x new => InStep o x (reports ++ about o.id new)) []
      (fun x d x' before new hi hc hfront => by
        rw [about_append, ← List.append_assoc]
        exact hi.matchFront hc hfront) (by simpa [about] using hi) hg h
    simpa using hloop

theorem InStep.heard {r : ExecutionReport} (hi : InStep o x (r :: reports)) :
    InStep ((o.onReport r).getD o) x reports := by
  have hid := ExecutionHandler.onReport_id (o := o) r
  refine ⟨hi.keyed, fun pre s hpre => ?_, fun internal hset => ?_, fun hset => ?_⟩
  · exact hi.synced (r :: pre) s (List.cons_prefix_cons.mpr ⟨rfl, hpre⟩)
  · exact hi.live internal (by rw [← hid]; exact hset)
  · exact hi.dropped (by rw [← hid]; exact hset)

theorem InStep.accepted {x₁ : SimulatedExchange} {ack : List ExecutionReport} (hk : Keyed x)
    (hnew : o.state = .pendingNew) (hfill : o.filledQuantity = 0)
    (hsend : x.sendOrder o = (true, x₁, ack)) :
    InStep o x₁ ack ∧ ack = [x.ackReport o] := by
  have hkeyed := hk.sendOrder o
  obtain hsame | ⟨-, -, htaken⟩ := x.sendOrder_cases o
  · rw [hsame] at hsend
    cases hsend
  · rw [htaken] at hsend hkeyed
    cases hsend
    have hafter : (o.after [x.ackReport o]).state = .accepted ∧
        (o.after [x.ackReport o]).filledQuantity = 0 := by
      simp [Order.onReport, ackReport, reportEvent, Order.beforeCancel, Order.apply_state, hnew,
        OrderStateMachine.apply, Order.recordFill_filledQuantity, hfill]
    refine ⟨⟨hkeyed, ?_, fun i hset => ?_, fun hnone => by simp at hnone⟩, rfl⟩
    · have hempty : Synced o [] := fun pre r hpre => by simp at hpre
      exact hempty.append (r := x.ackReport o) hafter
    · obtain rfl : _ = i := by simpa using hset
      exact ⟨by rw [hafter.1, liveState, if_pos hfill], hafter.2.trans hfill.symm, hfill.ge, fun _ => hfill⟩

/-- Without a late reject the handler follows the exchange report by report, and holds an order for
finished exactly when the exchange has dropped it. -/
theorem exchange_handler_agree {config : ExchangeConfig} {h₀ h : Trace Action ExecutionReport}
    {x₀ x₁ x : SimulatedExchange} {o : Order} {handler : ExecutionHandler} {ack : List ExecutionReport}
    (hr₀ : (machine P).Run { config := config } h₀ x₀) (hnew : o.state = .pendingNew)
    (hfill : o.filledQuantity = 0) (htracked : handler.orders o.id = some o)
    (hself : handler.childToParent o.id ≠ some o.id) (hsend : x₀.sendOrder o = (true, x₁, ack))
    (hr : (machine P).Reach (NoLateReject P o.id) x₁ h x) :
    let reports := ack ++ about o.id h.events
    (∀ pre last, pre ++ [last] <+: reports →
      ∃ o', (handler.processAll (pre ++ [last])).orders o.id = some o' ∧ o'.state = last.state ∧
        o'.filledQuantity = last.cumQuantity) ∧
      ∃ o', (handler.processAll reports).orders o.id = some o' ∧
        (o'.isTerminal = true ↔ x.activeOrders o.id = none) := by
  intro reports
  have hkeyed : Keyed x₀ := hr₀.invariant (I := fun _ x => Keyed x) (fun _ _ h => by cases h)
    fun _ _ _ _ _ hk _ hstep => keyed_step hk hstep
  obtain ⟨hstart, hack⟩ := InStep.accepted hkeyed hnew hfill hsend
  have hin : InStep o x reports := by
    refine hr.invariant (I := fun h x => InStep o x (ack ++ about o.id h.events))
      (by simpa [about] using hstart) fun k y a z new hi hg hstep => ?_
    rw [Trace.events_append, Trace.events_single, about_append, ← List.append_assoc]
    exact hi.step hg hstep
  have habout : ∀ r ∈ reports, r.orderId = o.id := by
    intro r hmem
    rcases List.mem_append.mp hmem with hmem | hmem
    · rw [hack] at hmem
      obtain rfl : r = _ := by simpa using hmem
      rfl
    · simpa using (List.mem_filter.mp hmem).2
  refine ⟨fun pre last hpre => ⟨_, ?_, hin.synced pre last hpre⟩, _,
    ExecutionHandler.processAll_order htracked hself habout, fun hterminal => ?_, hin.dropped⟩
  · exact ExecutionHandler.processAll_order htracked hself fun r hmem => habout r (hpre.subset hmem)
  · cases hactive : x.activeOrders o.id with
    | none => rfl
    | some internal =>
      have hstate := (hin.live internal hactive).state
      rw [Order.isTerminal, hstate, liveState] at hterminal
      split_ifs at hterminal <;> cases hterminal

def tenLots : Order :=
  { id := 7, symbol := .assign [65], price := 100 * priceScale, quantity := 10, state := .pendingNew }

def openExchange : SimulatedExchange := (SimulatedExchange.connect {}).2

def accepted : SimulatedExchange := (openExchange.sendOrder tenLots).2.1

def halfFill : ℕ → Draws := fun _ => ⟨1 / 2, 1 / 2, 1 / 10, 1 / 2⟩

def fullFill : ℕ → Draws := fun _ => ⟨1 / 2, 1 / 2, 1 / 2, 1 / 2⟩

def randomReject : ℕ → Draws := fun _ => ⟨0, 1 / 2, 1 / 2, 1 / 2⟩

def quote : Action := .setMarketPrice (99 * priceScale) (100 * priceScale)

theorem exchange_handler_agree_filled : ∃ h x o', (machine .exact).Run accepted h x ∧
    ((ExecutionHandler.trackOrder {} tenLots).processAll
      ([openExchange.ackReport tenLots] ++ about 7 h.events)).orders 7 = some o' ∧
    (o'.isTerminal = true ↔ x.activeOrders 7 = none) := by
  have hquoted : (machine .exact).Reach (NoLateReject .exact 7) accepted [(quote, [])]
      (accepted.setMarketPrice (99 * priceScale) (100 * priceScale)) := .step .refl trivial rfl
  obtain ⟨⟨x, new⟩, hmatched⟩ := Option.isSome_iff_exists.mp (by decide +kernel :
    ((machine .exact).step (accepted.setMarketPrice (99 * priceScale) (100 * priceScale))
      (.processMatching fullFill)).isSome = true)
  have hclear : ¬(1 / 2 : ℚ) < openExchange.config.rejectProbability := by decide +kernel
  have hguard : NoLateReject .exact 7 [(quote, [])]
      (accepted.setMarketPrice (99 * priceScale) (100 * priceScale)) (.processMatching fullFill) :=
    And.intro (fun ⟨_, _, _, _, _, hdraw⟩ => hclear hdraw) fun _ _ _ => trivial
  have hfilled := hquoted.step (a := .processMatching fullFill) hguard hmatched
  have hopened : (machine .exact).Run { config := {} } [(.connect, [])] openExchange :=
    .step .refl trivial rfl
  have htracked : (ExecutionHandler.trackOrder {} tenLots).orders tenLots.id = some tenLots := rfl
  obtain ⟨-, o', ho', hterminal⟩ :=
    exchange_handler_agree hopened rfl rfl htracked (by decide) rfl hfilled
  exact ⟨_, _, o', hfilled.run, ho', hterminal⟩

/-- A partly filled order is rejected: the exchange is done with it, the handler never is. -/
theorem late_reject_disagrees : ∃ h x, (machine .exact).Run accepted h x ∧
    ((x.activeOrders 7).isNone = true ∧
      ((about 7 h.events).getLast?.map fun r => r.state) = some OrderState.rejected ∧
      (((ExecutionHandler.trackOrder {} tenLots).processAll
        ([openExchange.ackReport tenLots] ++ about 7 h.events)).orders 7).map (fun o => o.state) =
          some OrderState.partiallyFilled) :=
  Machine.exists_run _ _ _ [quote, .processMatching halfFill, .processMatching randomReject]
    (by decide +kernel)

end ExchangeAgreement

end Klett.Sor
