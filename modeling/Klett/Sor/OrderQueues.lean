import Klett.Sor.GatewaySteps

namespace Klett.Sor

open Klett.Lib

namespace Gateway

variable {V : Type}

def inputs (g : Gateway V) : Bool × Fifo Order 8192 × Fifo CancelRequest 4096 :=
  (g.running, g.orderQueue, g.cancelQueue)

variable {g g' : Gateway V}

theorem VenueCalls.inputs (h : g.VenueCalls g') : g'.inputs = g.inputs := by
  obtain ⟨venues, queue, rfl⟩ := h
  rfl

variable [VenueAdapter V] {P : Platform}

theorem dispatchSlices_inputs (order : Order) (slices : List Slice) :
    (dispatchSlices order g slices).1.inputs = g.inputs := by
  refine dispatchSlices_invariant (fun g' _ => g'.inputs = g.inputs) (fun _ => True) order slices []
    (fun g' es slice _ _ hi => ?_) rfl (by simp)
  obtain ⟨es', -, -, hcalls⟩ := g'.dispatchSlice_eq order slice
  exact hcalls.inputs.trans hi

theorem processSingleOrder_inputs (order : Order) (t : Readings) :
    (g.processSingleOrder P order t).1.inputs = g.inputs := by
  cases hpass : g.passes order t with
  | false =>
    obtain ⟨limiter, heq⟩ := processSingleOrder_refused (P := P) hpass
    rw [heq]
    rfl
  | true =>
    obtain ⟨engine, limiter, heq⟩ := processSingleOrder_passed (P := P) hpass
    rw [heq]
    exact dispatchSlices_inputs _ _

theorem processReport_inputs (r : ExecutionReport) (t : Readings) :
    (g.processReport P r t).1.inputs = g.inputs := by
  obtain ⟨fills, happly⟩ := applyReport_frame (g := g) (r := r)
  have hsame : (g.applyReport r).inputs = g.inputs := by
    rw [happly]
    rfl
  obtain ⟨done, -, ⟨-, heq⟩ | ⟨parent, -, heq⟩⟩ := processReport_cases (P := P) (g := g) r t
  · rw [heq]
    exact hsame
  · rw [heq]
    exact (processSingleOrder_inputs _ t).trans hsame

theorem processCancel_inputs (request : CancelRequest) : (g.processCancel request).1.inputs = g.inputs := by
  obtain ⟨-, heq⟩ | ⟨-, es, -, hcalls, -⟩ := processCancel_cases (g := g) request
  · rw [heq]
  · exact hcalls.inputs

end Gateway

namespace System

variable {V : Type} [VenueAdapter V] (s : System V)

def queuedOrder : Action V → Option Order
  | .submitOrder request =>
    if s.gateway.running ∧ s.gateway.orderQueue.items.length < 8192 then some (s.assignId request).1
    else none
  | _ => none

def queuedCancel : Action V → Option CancelRequest
  | .cancelOrder request =>
    if s.gateway.running ∧ s.gateway.cancelQueue.items.length < 4096 then some request else none
  | _ => none

def takenOrder : Action V → Option Order
  | .orderLoop _ => if s.orderThread = .orders then s.gateway.orderQueue.items.head? else none
  | _ => none

def takenCancel : Action V → Option CancelRequest
  | .orderLoop _ => if s.orderThread = .cancels then s.gateway.cancelQueue.items.head? else none
  | _ => none

theorem takenOrder_prefix (a : Action V) : (s.takenOrder a).toList <+: s.gateway.orderQueue.items := by
  unfold takenOrder
  split
  · split_ifs
    · cases s.gateway.orderQueue.items <;> simp
    · simp
  · simp

theorem takenCancel_prefix (a : Action V) : (s.takenCancel a).toList <+: s.gateway.cancelQueue.items := by
  unfold takenCancel
  split
  · split_ifs
    · cases s.gateway.cancelQueue.items <;> simp
    · simp
  · simp

theorem takenOrder_thread {a : Action V} (h : s.takenOrder a ≠ none) : s.orderThread = .orders := by
  unfold takenOrder at h
  split at h
  · exact of_not_not fun hthread => h (if_neg hthread)
  · contradiction

theorem takenCancel_thread {a : Action V} (h : s.takenCancel a ≠ none) : s.orderThread = .cancels := by
  unfold takenCancel at h
  split at h
  · exact of_not_not fun hthread => h (if_neg hthread)
  · contradiction

def Supervised : Prop := s.orderThread ≠ .exited → s.gateway.running = true ∨ s.stopping = true

structure Moves (s : System V) (a : Action V) (s' : System V) : Prop where
  orders : (s.takenOrder a).toList ++ s'.gateway.orderQueue.items =
    s.gateway.orderQueue.items ++ (s.queuedOrder a).toList
  cancels : (s.takenCancel a).toList ++ s'.gateway.cancelQueue.items =
    s.gateway.cancelQueue.items ++ (s.queuedCancel a).toList
  /-- The cancels are drained from when no order is left until no cancel is left. -/
  entered : s'.orderThread = .cancels → s.orderThread = .cancels ∨ s.gateway.orderQueue.items = []
  left : s.orderThread = .cancels → s'.orderThread = .cancels ∨
    s.gateway.cancelQueue.items = [] ∧ s.queuedCancel a = none
  supervised : s'.Supervised

variable {s} {s' : System V} {P : Platform} {es : List Event} {a : Action V}

theorem Moves.unmoved (hs : s.Supervised) (hqueued : s.queuedOrder a = none) (hcancel : s.queuedCancel a = none)
    (htaken : s.takenOrder a = none) (htakenCancel : s.takenCancel a = none)
    (hinputs : s'.gateway.inputs = s.gateway.inputs) (hthread : s'.orderThread = s.orderThread)
    (hstopping : s'.stopping = s.stopping) : Moves s a s' := by
  simp only [Gateway.inputs, Prod.mk.injEq] at hinputs
  obtain ⟨hrunning, horders, hcancels⟩ := hinputs
  constructor
  case orders =>
    rw [hqueued, htaken, horders]
    simp
  case cancels =>
    rw [hcancel, htakenCancel, hcancels]
    simp
  case entered =>
    intro h
    exact .inl (hthread ▸ h)
  case left =>
    intro h
    exact .inl (hthread.trans h)
  case supervised =>
    unfold Supervised
    rw [hthread, hrunning, hstopping]
    exact hs

theorem Moves.submitOrder (hs : s.Supervised) (request : Order) :
    Moves s (.submitOrder request) (s.submitOrder request).1 := by
  have hsame (g : Gateway V) (hrunning : g.running = s.gateway.running)
      (hqueue : g.orderQueue = s.gateway.orderQueue) (hcancels : g.cancelQueue = s.gateway.cancelQueue)
      (hqueued : s.queuedOrder (.submitOrder request) = none) :
      Moves s (.submitOrder request) (s.setGateway g) :=
    .unmoved hs hqueued rfl rfl rfl (by simp [Gateway.inputs, setGateway, hrunning, hqueue, hcancels]) rfl rfl
  unfold System.submitOrder
  cases hrunning : s.gateway.running with
  | false => exact hsame s.gateway rfl rfl rfl (by simp [queuedOrder, hrunning])
  | true =>
    simp only [Bool.not_true, Bool.false_eq_true, ↓reduceIte]
    split
    next hfull =>
      have hfull : ¬s.gateway.orderQueue.items.length < 8192 := not_lt.mpr (Fifo.tryPush_eq_none.mp hfull)
      exact hsame { s.gateway with nextOrderId := (s.assignId request).2 } rfl rfl rfl
        (by simp [queuedOrder, hfull])
    next queue hpush =>
      have hroom : s.gateway.orderQueue.items.length < 8192 := by
        by_contra hfull
        have hnone := Fifo.tryPush_eq_none (x := (s.assignId request).1) |>.mpr (not_lt.mp hfull)
        simp only [setGateway] at hpush
        rw [hnone] at hpush
        cases hpush
      constructor
      case orders =>
        have hitems := Fifo.tryPush_items hpush
        simpa [takenOrder, queuedOrder, hrunning, hroom, setGateway] using hitems
      case cancels => simp [takenCancel, queuedCancel, setGateway]
      case entered => exact .inl
      case left => exact .inl
      case supervised => exact hs

theorem Moves.cancelOrder (hs : s.Supervised) (request : CancelRequest) :
    Moves s (.cancelOrder request) (s.cancelOrder request) := by
  have hsame (hqueued : s.queuedCancel (.cancelOrder request) = none) :
      Moves s (.cancelOrder request) s := .unmoved hs rfl hqueued rfl rfl rfl rfl rfl
  unfold System.cancelOrder
  cases hrunning : s.gateway.running with
  | false => exact hsame (by simp [queuedCancel, hrunning])
  | true =>
    simp only [Bool.not_true, Bool.false_eq_true, ↓reduceIte]
    split
    next hfull =>
      have hfull : ¬s.gateway.cancelQueue.items.length < 4096 := not_lt.mpr (Fifo.tryPush_eq_none.mp hfull)
      exact hsame (by simp [queuedCancel, hfull])
    next queue hpush =>
      have hroom : s.gateway.cancelQueue.items.length < 4096 := by
        by_contra hfull
        rw [Fifo.tryPush_eq_none.mpr (not_lt.mp hfull)] at hpush
        cases hpush
      constructor
      case orders => simp [takenOrder, queuedOrder, setGateway]
      case cancels =>
        have hitems := Fifo.tryPush_items hpush
        simpa [takenCancel, queuedCancel, hrunning, hroom, setGateway] using hitems
      case entered => exact .inl
      case left => exact .inl
      case supervised => exact hs

theorem Moves.tookOrder (hs : s.Supervised) {t : Readings} {order : Order} {queue : Fifo Order 8192}
    {g : Gateway V} (hthread : s.orderThread = .orders)
    (hitems : s.gateway.orderQueue.items = order :: queue.items)
    (hinputs : g.inputs = { s.gateway with orderQueue := queue }.inputs) :
    Moves s (.orderLoop t) (s.setGateway g) := by
  simp only [Gateway.inputs, Prod.mk.injEq] at hinputs
  obtain ⟨hrunning, horders, hcancels⟩ := hinputs
  constructor
  case orders => simp [takenOrder, queuedOrder, setGateway, hthread, horders, hitems]
  case cancels => simp [takenCancel, queuedCancel, setGateway, hthread, hcancels]
  case entered => exact .inl
  case left => exact .inl
  case supervised => simpa [Supervised, setGateway, hrunning] using hs

theorem Moves.tookCancel (hs : s.Supervised) {t : Readings} {request : CancelRequest}
    {queue : Fifo CancelRequest 4096} {g : Gateway V} (hthread : s.orderThread = .cancels)
    (hitems : s.gateway.cancelQueue.items = request :: queue.items)
    (hinputs : g.inputs = { s.gateway with cancelQueue := queue }.inputs) :
    Moves s (.orderLoop t) (s.setGateway g) := by
  simp only [Gateway.inputs, Prod.mk.injEq] at hinputs
  obtain ⟨hrunning, horders, hcancels⟩ := hinputs
  constructor
  case orders => simp [takenOrder, queuedOrder, setGateway, hthread, horders]
  case cancels => simp [takenCancel, queuedCancel, setGateway, hthread, hcancels, hitems]
  case entered => exact .inl
  case left => exact .inl
  case supervised => simpa [Supervised, setGateway, hrunning] using hs

theorem Moves.orderLoop (hs : s.Supervised) {t : Readings} (h : s.orderLoop P t = some (s', es)) :
    Moves s (.orderLoop t) s' := by
  unfold System.orderLoop at h
  split at h
  · cases h
  next hthread =>
    cases h
    constructor
    case orders => simp [takenOrder, queuedOrder, hthread]
    case cancels => simp [takenCancel, queuedCancel, hthread]
    case entered =>
      intro h
      simp only at h
      split at h <;> cases h
    case left =>
      intro h
      rw [hthread] at h
      cases h
    case supervised =>
      intro h
      simp only at h
      split at h
      next hrunning => exact .inl hrunning
      · exact (h rfl).elim
  next hthread =>
    have hlive := hs (by rw [hthread]; simp)
    split at h
    next hempty =>
      have hempty := Fifo.tryPop_eq_none.mp hempty
      cases h
      constructor
      case orders => simp [takenOrder, queuedOrder, hempty]
      case cancels => simp [takenCancel, queuedCancel, hthread]
      case entered =>
        intro _
        exact .inr hempty
      case left =>
        intro _
        exact .inl rfl
      case supervised =>
        intro _
        exact hlive
    next order queue hpop =>
      cases h
      exact .tookOrder hs hthread (Fifo.tryPop_items hpop) (Gateway.processSingleOrder_inputs order t)
  next hthread =>
    have hlive := hs (by rw [hthread]; simp)
    split at h
    next hempty =>
      have hempty := Fifo.tryPop_eq_none.mp hempty
      cases h
      constructor
      case orders => simp [takenOrder, queuedOrder, hthread]
      case cancels => simp [takenCancel, queuedCancel, hempty]
      case entered =>
        intro h
        cases h
      case left =>
        intro _
        exact .inr ⟨hempty, rfl⟩
      case supervised =>
        intro _
        exact hlive
    next request queue hpop =>
      cases h
      exact .tookCancel hs hthread (Fifo.tryPop_items hpop) (Gateway.processCancel_inputs request)

theorem step_moves (hs : s.Supervised) (h : (machine P).step s a = some (s', es)) : Moves s a s' := by
  cases a with
  | submitOrder request =>
    obtain ⟨rfl, -⟩ : _ = s' ∧ _ = es := by simpa [machine, step, Prod.ext_iff] using h
    exact .submitOrder hs request
  | cancelOrder request =>
    cases h
    exact .cancelOrder hs request
  | orderLoop t => exact .orderLoop hs h
  | start =>
    simp only [machine, step] at h
    split_ifs at h with hrunning hstopping
    · cases h
      exact .unmoved hs rfl rfl rfl rfl rfl rfl rfl
    · cases h
      -- the thread that starts is not the one that drains the cancels: that one has ended
      have hended : s.orderThread = .exited := by
        by_contra hlive
        exact (hs hlive).elim hrunning hstopping
      refine ⟨?_, ?_, fun h => ?_, fun h => ?_, fun _ => .inl rfl⟩
      · simp [takenOrder, queuedOrder]
      · simp [takenCancel, queuedCancel]
      · cases h
      · rw [hended] at h
        cases h
  | stop =>
    simp only [machine, step] at h
    split_ifs at h
    · cases h
      refine ⟨?_, ?_, .inl, .inl, fun _ => .inr rfl⟩
      · simp [takenOrder, queuedOrder]
      · simp [takenCancel, queuedCancel]
    · cases h
      exact .unmoved hs rfl rfl rfl rfl rfl rfl rfl
  | joinStop =>
    simp only [machine, step] at h
    split_ifs at h with hjoin
    cases h
    refine ⟨?_, ?_, .inl, .inl, fun hlive => (hlive hjoin.2.1).elim⟩
    · simp [takenOrder, queuedOrder]
    · simp [takenCancel, queuedCancel]
  | execLoop t =>
    simp only [machine, step, execLoop] at h
    split at h
    · cases h
    · cases h
      exact .unmoved hs rfl rfl rfl rfl rfl rfl rfl
    · split at h
      · cases h
        exact .unmoved hs rfl rfl rfl rfl rfl rfl rfl
      · cases h
        exact .unmoved hs rfl rfl rfl rfl (Gateway.processReport_inputs _ t) rfl rfl
  | venue venueId op =>
    simp only [machine, step] at h
    split at h
    · cases h
    · obtain ⟨_, -, heq⟩ := Option.map_eq_some_iff.mp h
      cases heq
      exact .unmoved hs rfl rfl rfl rfl rfl rfl rfl
  | notify venueId =>
    simp only [machine, step] at h
    split at h
    · cases h
    · cases h
      exact .unmoved hs rfl rfl rfl rfl (Gateway.onExecutionReport_calls _).1.inputs rfl rfl
  | _ =>
    cases h
    exact .unmoved hs rfl rfl rfl rfl rfl rfl rfl

end System

end Klett.Sor
