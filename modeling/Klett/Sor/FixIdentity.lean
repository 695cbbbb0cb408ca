import Klett.Sor.FixAdapter
import Klett.Sor.VenueRuns

namespace Klett.Sor.FixIdentity

open Klett.Lib Klett.Sor.System VenueRuns FixAdapter FixMessage

section Adapter

variable {P : Platform} {x : FixAdapter} {order : Order} {msg : FixMessage}

def newOrders (x : FixAdapter) : List FixMessage := x.sentLog.filter (·.type = .newOrderSingle)

/-- The fields that a report takes its numbers from parse, those of the order's id apart. -/
structure Readable (P : Platform) (msg : FixMessage) : Prop where
  execId : (idFromStr (msg.get execId)).isSome
  lastPx : (priceFromStr P (msg.get lastPx)).isSome
  lastQty : (qtyFromStr (msg.get lastQty)).isSome
  avgPx : (priceFromStr P (msg.get avgPx)).isSome
  cumQty : (qtyFromStr (msg.get cumQty)).isSome
  leavesQty : (qtyFromStr (msg.get leavesQty)).isSome

/-- The order that a message was sent for is the order that cancels and reports with its ClOrdID are
about. The adapter may have changed before it comes to the report. -/
structure Identifies (P : Platform) (x : FixAdapter) (order : Order) (sent : FixMessage) : Prop where
  cancel : ∀ request : CancelRequest, request.orderId = order.id →
    ∀ msg ∈ (x.cancelOrder request).2.sentLog.drop x.sentLog.length,
      msg.get origClOrdId = sent.get clOrdId
  report : ∀ msg : FixMessage, msg.type = .executionReport → msg.get clOrdId = sent.get clOrdId →
    msg.fields orderId = none → Readable P msg → ∀ (y : FixAdapter) (rest : List FixMessage),
      ∃ report reports, (processQueue P y (msg :: rest)).2 = report :: reports ∧ report.orderId = order.id

structure IdentitySurvives (P : Platform) (x : FixAdapter) (orders : List Order) : Prop where
  distinct : ((newOrders x).map (·.get clOrdId)).Nodup
  identifies : List.Forall₂ (Identifies P x) orders (newOrders x)

theorem idFromStr_idToStr {id : ℕ} (h : id < 2 ^ 64) : idFromStr (idToStr id) = some id := by
  have hne : (idToStr id).isEmpty = false := by simp [idToStr, Decimal.ofNat_ne_nil]
  simp only [idFromStr, hne, Bool.false_eq_true, ↓reduceIte]
  exact Decimal.stoull_ofNat h

theorem orderToFix_type : (x.orderToFix order).type = .newOrderSingle := by
  simp only [orderToFix]
  split <;> rfl

theorem orderToFix_clOrdId : (x.orderToFix order).get clOrdId = idToStr order.clientOrderId := by
  simp only [orderToFix]
  split <;> rfl

theorem newOrders_send (msg : FixMessage) (h : msg.type ≠ .newOrderSingle) :
    newOrders (x.send msg) = newOrders x := by
  simp [newOrders, send, h]

theorem newOrders_sendOrder : (newOrders (x.sendOrder order).2.1).map (·.get clOrdId) =
    (newOrders x).map (·.get clOrdId) ++
      if (x.sendOrder order).1 then [idToStr order.clientOrderId] else [] := by
  unfold sendOrder
  cases hc : x.connected with
  | false => simp
  | true =>
    have hkept (number : List UInt8) :
        ((x.orderToFix order).set FixMessage.msgSeqNum number).get clOrdId = idToStr order.clientOrderId := by
      rw [get_set_other (by decide)]
      exact orderToFix_clOrdId
    simp [newOrders, send, orderToFix_type, hkept]

theorem newOrders_cancelOrder (request : CancelRequest) :
    newOrders (x.cancelOrder request).2 = newOrders x := by
  unfold FixAdapter.cancelOrder
  split
  · rfl
  · split
    · exact newOrders_send (x.cancelToFix request) (by simp [cancelToFix])
    · rfl

theorem newOrders_disconnect : newOrders x.disconnect = newOrders x := by
  unfold disconnect
  split
  · exact newOrders_send (x.session .logout "5") (by simp [session])
  · rfl

theorem newOrders_connect : newOrders x.connect.2 = newOrders x := by
  unfold connect
  split
  · rfl
  · exact newOrders_send (x.session .logon "A") (by simp [session])

theorem processQueue_sentLog (msgs : List FixMessage) : (processQueue P x msgs).1.sentLog = x.sentLog := by
  induction msgs generalizing x with
  | nil => rfl
  | cons msg msgs ih =>
    unfold processQueue
    split
    · exact ih
    · split
      · rfl
      next report _ =>
        refine ih.trans ?_
        unfold updateActive
        split <;> rfl

theorem execFromFix_echo {id : ℕ} (hm : Readable P msg) (ho : msg.fields orderId = none)
    (hc : msg.get clOrdId = idToStr id) (h64 : id < 2 ^ 64) :
    ∃ report, execFromFix P msg = some report ∧ report.orderId = id := by
  obtain ⟨exec, hexec⟩ := Option.isSome_iff_exists.mp hm.execId
  obtain ⟨lastPrice, hlastPx⟩ := Option.isSome_iff_exists.mp hm.lastPx
  obtain ⟨lastQuantity, hlastQty⟩ := Option.isSome_iff_exists.mp hm.lastQty
  obtain ⟨avgPrice, havgPx⟩ := Option.isSome_iff_exists.mp hm.avgPx
  obtain ⟨cumQuantity, hcumQty⟩ := Option.isSome_iff_exists.mp hm.cumQty
  obtain ⟨leavesQuantity, hleavesQty⟩ := Option.isSome_iff_exists.mp hm.leavesQty
  have hempty : msg.get FixMessage.orderId = [] := by simp [FixMessage.get, ho]
  simp only [execFromFix, hempty, List.isEmpty_nil, ↓reduceIte, hc, idFromStr_idToStr h64, hexec, hlastPx,
    hlastQty, havgPx, hcumQty, hleavesQty, Option.bind_some, Option.map_some]
  exact ⟨_, rfl, rfl⟩

theorem processQueue_echo {id : ℕ} (ht : msg.type = .executionReport) (hm : Readable P msg)
    (ho : msg.fields orderId = none) (hc : msg.get clOrdId = idToStr id) (h64 : id < 2 ^ 64)
    (rest : List FixMessage) :
    ∃ report reports, (processQueue P x (msg :: rest)).2 = report :: reports ∧ report.orderId = id := by
  obtain ⟨report, hexec, hid⟩ := execFromFix_echo hm ho hc h64
  unfold processQueue
  rw [if_neg (not_not.mpr ht), hexec]
  exact ⟨_, _, rfl, hid⟩

def echo (clOrdId : List UInt8) : FixMessage :=
  { type := .executionReport : FixMessage }.set FixMessage.clOrdId clOrdId

theorem readable_echo (text : List UInt8) : Readable P (echo text) := by
  constructor <;> rfl

theorem cancelOrder_origClOrdId (request : CancelRequest) :
    ∀ msg ∈ (x.cancelOrder request).2.sentLog.drop x.sentLog.length,
      msg.get origClOrdId = idToStr request.orderId := by
  unfold FixAdapter.cancelOrder
  split
  · simp
  · split
    · intro msg hmsg
      simp only [send, List.drop_left, List.mem_singleton] at hmsg
      subst hmsg
      rw [get_set_other (by decide)]
      rfl
    · simp

theorem identifies_iff {sent : FixMessage} (hsent : sent.get clOrdId = idToStr order.clientOrderId)
    (h64 : order.clientOrderId < 2 ^ 64) : Identifies P x order sent ↔ order.clientOrderId = order.id := by
  constructor
  · intro h
    have hget : (echo (idToStr order.clientOrderId)).get clOrdId = idToStr order.clientOrderId := rfl
    obtain ⟨report, reports, hfirst, hid⟩ := h.report (echo (idToStr order.clientOrderId)) rfl
      (hget.trans hsent.symm) rfl (readable_echo _) x []
    have hecho : ∃ report reports, (processQueue P x [echo (idToStr order.clientOrderId)]).2 =
        report :: reports ∧ report.orderId = order.clientOrderId :=
      processQueue_echo rfl (readable_echo _) rfl hget h64 []
    obtain ⟨report', reports', hfirst', hid'⟩ := hecho
    rw [hfirst] at hfirst'
    cases hfirst'
    exact hid'.symm.trans hid
  · intro heq
    refine ⟨fun request hr msg hmsg => ?_, fun msg ht hc ho hm y rest => ?_⟩
    · rw [cancelOrder_origClOrdId request msg hmsg, hsent, hr, heq]
    · rw [hsent] at hc
      rw [← heq]
      exact processQueue_echo ht hm ho hc h64 rest

theorem identitySurvives_iff {orders : List Order}
    (hlog : (newOrders x).map (·.get clOrdId) = orders.map fun o => idToStr o.clientOrderId)
    (hids : (orders.map Order.id).Nodup) (h64 : ∀ o ∈ orders, o.clientOrderId < 2 ^ 64) :
    IdentitySurvives P x orders ↔ ∀ o ∈ orders, o.clientOrderId = o.id := by
  have hpairs : List.Forall₂ (fun o sent => sent.get clOrdId = idToStr o.clientOrderId) orders
      (newOrders x) := by
    rw [← List.forall₂_eq_eq_eq, List.forall₂_map_left_iff, List.forall₂_map_right_iff] at hlog
    exact hlog.flip
  have hall : List.Forall₂ (Identifies P x) orders (newOrders x) ↔ ∀ o ∈ orders, o.clientOrderId = o.id := by
    clear hlog hids
    generalize newOrders x = sent at hpairs
    induction hpairs with
    | nil => simp
    | cons hfirst hrest ih =>
      rw [List.forall₂_cons, identifies_iff hfirst (h64 _ List.mem_cons_self),
        ih fun o ho => h64 o (List.mem_cons_of_mem _ ho), List.forall_mem_cons]
  constructor
  · exact fun h => hall.mp h.identifies
  · intro heq
    refine ⟨?_, hall.mpr heq⟩
    have hsame : (orders.map fun o => idToStr o.clientOrderId) = (orders.map Order.id).map idToStr := by
      rw [List.map_map]
      exact List.map_congr_left fun o ho => congrArg idToStr (heq o ho)
    rw [hlog, hsame]
    exact hids.map Decimal.ofNat_injective

end Adapter

section Run

variable {P : Platform} {W : Type} [VenueAdapter W]

def Logged (venue : FixAdapter ⊕ W) (orders : List Order) : Prop :=
  ∃ x, venue = .inl x ∧ (newOrders x).map (·.get clOrdId) = orders.map fun o => idToStr o.clientOrderId

theorem kept_logged : Kept P (Logged (W := W)) where
  sendOrder := by
    rintro _ orders order ⟨x, rfl, hlog⟩
    refine ⟨(x.sendOrder order).2.1, rfl, ?_⟩
    rw [newOrders_sendOrder, hlog]
    change _ = (if (x.sendOrder order).1 then orders ++ [order] else orders).map _
    split <;> simp
  cancelOrder := by
    rintro _ orders request ⟨x, rfl, hlog⟩
    exact ⟨(x.cancelOrder request).2, rfl, by rw [newOrders_cancelOrder, hlog]⟩
  disconnect := by
    rintro _ orders ⟨x, rfl, hlog⟩
    exact ⟨x.disconnect, rfl, by rw [newOrders_disconnect, hlog]⟩
  run := by
    rintro _ orders op x' reports hrun ⟨x, rfl, hlog⟩
    cases op with
    | inr op => cases hrun
    | inl op =>
      obtain ⟨⟨y, reports⟩, hran, heq⟩ := Option.map_eq_some_iff.mp hrun
      cases heq
      refine ⟨y, rfl, ?_⟩
      rw [← hlog]
      cases op with
      | connect => cases hran; rw [newOrders_connect]
      | disconnect => cases hran; rw [newOrders_disconnect]
      | processIncoming =>
        have hpair : processQueue P x x.incomingQueue = (y, reports) := Option.some.inj hran
        have hlog : y.sentLog = x.sentLog := by
          rw [← processQueue_sentLog (P := P) (x := x) x.incomingQueue, hpair]
        rw [newOrders, newOrders, hlog]
      | injectMessage msg => cases hran; rfl

/-- The children sent to a FIX session keep their identities exactly when each has the client order id
for its own id. -/
theorem survives_iff {s₀ s : System (FixAdapter ⊕ W)} {h : Trace (Action (FixAdapter ⊕ W)) Event}
    {v : ℕ} {x₀ : FixAdapter} (hr : (machine P).Run s₀ h s)
    (hx : s₀.gateway.venues v = some (.inl x₀)) (hlog : newOrders x₀ = [])
    (hids : ((sentTo v h.events).map Order.id).Nodup)
    (h64 : ∀ o ∈ sentTo v h.events, o.clientOrderId < 2 ^ 64) :
    ∃ x, s.gateway.venues v = some (.inl x) ∧
      (IdentitySurvives P x (sentTo v h.events) ↔ ∀ o ∈ sentTo v h.events, o.clientOrderId = o.id) := by
  have hfresh : Logged (W := W) (.inl x₀) [] := ⟨x₀, rfl, by rw [hlog]; rfl⟩
  obtain ⟨_, hvenue, x, rfl, hlogged⟩ := Knows.of_reach kept_logged hr hx hfresh
  exact ⟨x, hvenue, identitySurvives_iff hlogged hids h64⟩

end Run

def oneSession : System (FixAdapter ⊕ SimulatedExchange) :=
  initialized (fun v => if v = 2 then some (.inl (FixAdapter.connect { config := {} }).2) else none)
    ((({} : RoutingEngine).registerStrategy .bestPrice).updateVenueScore 2 {})
    (.quoting 2 (.assign [65]) (99 * priceScale) (101 * priceScale) 100) {} (fun _ => none)
    { maxPerSecond := 10000, windowStart := 0 }

def sendingAll (clientOrderIds : List ℕ) : List (Action (FixAdapter ⊕ SimulatedExchange)) :=
  .start :: clientOrderIds.map (fun id => .submitOrder { buyTen with clientOrderId := id }) ++
    .orderLoop {} :: clientOrderIds.map fun _ => .orderLoop {}

/-- Two orders, each with the id of its child for its client order id. -/
theorem survives_iff_own_ids : ∃ h s, (machine .exact).Run oneSession h s ∧
    (sentTo 2 h.events).map (fun o => (o.id, o.clientOrderId)) = [(3, 3), (4, 4)] ∧
    ∃ x, s.gateway.venues 2 = some (.inl x) ∧
      (IdentitySurvives .exact x (sentTo 2 h.events) ↔ ∀ o ∈ sentTo 2 h.events, o.clientOrderId = o.id) := by
  obtain ⟨h, s, hr, hone, hids, h64⟩ := Machine.exists_run (machine .exact) oneSession
    (fun h _ => (sentTo 2 h.events).map (fun o => (o.id, o.clientOrderId)) = [(3, 3), (4, 4)] ∧
      ((sentTo 2 h.events).map Order.id).Nodup ∧ ∀ o ∈ sentTo 2 h.events, o.clientOrderId < 2 ^ 64)
    (sendingAll [3, 4]) (by decide +kernel)
  exact ⟨h, s, hr, hone, survives_iff hr rfl (by decide) hids h64⟩

/-- Two orders without a client order id. Both children are sent under the ClOrdID 0. -/
theorem identity_lost : ∃ h s, (machine .exact).Run oneSession h s ∧
    (sentTo 2 h.events).map (fun o => (o.id, o.clientOrderId)) = [(3, 0), (4, 0)] ∧
    ∃ x, s.gateway.venues 2 = some (.inl x) ∧ ¬IdentitySurvives .exact x (sentTo 2 h.events) := by
  obtain ⟨h, s, hr, hsent, hshared⟩ := Machine.exists_run (machine .exact) oneSession
    (fun h s => (sentTo 2 h.events).map (fun o => (o.id, o.clientOrderId)) = [(3, 0), (4, 0)] ∧
      ∃ x ∈ (s.gateway.venues 2).bind Sum.getLeft?, ¬((newOrders x).map (·.get clOrdId)).Nodup)
    (sendingAll [0, 0]) (by decide +kernel)
  obtain ⟨x, hx, hshared⟩ := hshared
  obtain ⟨venue, hvenue, hleft⟩ := Option.bind_eq_some_iff.mp hx
  refine ⟨h, s, hr, hsent, x, ?_, fun hsurvives => hshared hsurvives.distinct⟩
  rw [hvenue, Sum.getLeft?_eq_some_iff.mp hleft]

end Klett.Sor.FixIdentity
