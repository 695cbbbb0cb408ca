import Mathlib.Logic.Function.Basic
import Klett.Lib.Platform
import Klett.Sor.Types

namespace Klett.Sor

open Klett.Lib

structure ExchangeConfig where
  venueId : ℕ := 1
  fillProbability : ℚ := 95 / 100
  partialFillProbability : ℚ := 3 / 10
  rejectProbability : ℚ := 1 / 100

structure InternalOrder where
  order : Order
  pendingCancel : Bool := false

structure Draws where
  reject : ℚ
  fill : ℚ
  partialFill : ℚ
  pct : ℚ

structure SimulatedExchange where
  config : ExchangeConfig := {}
  connected : Bool := false
  activeOrders : ℕ → Option InternalOrder := fun _ => none
  pendingQueue : List ℕ := []
  marketBid : ℤ := invalidPrice
  marketAsk : ℤ := invalidPrice
  nextExecId : ℕ := 1

namespace SimulatedExchange

variable (P : Platform) (x : SimulatedExchange)

def connect : Bool × SimulatedExchange :=
  if x.connected then (false, x) else (true, { x with connected := true })

def disconnect : SimulatedExchange := { x with connected := false }

def setMarketPrice (bid ask : ℤ) : SimulatedExchange := { x with marketBid := bid, marketAsk := ask }

def ackReport (order : Order) : ExecutionReport :=
  { orderId := order.id
    execId := x.nextExecId
    state := .accepted
    leavesQuantity := order.quantity
    venueId := x.config.venueId }

/-- The result says whether the order was taken; the reports go to the execution callback. -/
def sendOrder (order : Order) : Bool × SimulatedExchange × List ExecutionReport :=
  if !x.connected then (false, x, [])
  else if (x.activeOrders order.id).isSome then (false, x, [])
  else
    (true,
      { x with
        activeOrders := Function.update x.activeOrders order.id (some { order := order })
        pendingQueue := x.pendingQueue ++ [order.id]
        nextExecId := x.nextExecId + 1 },
      [x.ackReport order])

def cancelOrder (request : CancelRequest) : Bool × SimulatedExchange :=
  if !x.connected then (false, x)
  else
    match x.activeOrders request.orderId with
    | none => (false, x)
    | some internal =>
      (true, { x with activeOrders :=
        Function.update x.activeOrders request.orderId (some { internal with pendingCancel := true }) })

def executable (order : Order) : Option ℤ :=
  let marketable (price : ℤ) (crosses : Prop) [Decidable crosses] :=
    if price ≠ invalidPrice ∧ (order.type = .market ∨ crosses) then some price else none
  match order.side with
  | .buy => marketable x.marketAsk (order.price ≥ x.marketAsk)
  | .sell => marketable x.marketBid (order.price ≤ x.marketBid)

def isIoc (order : Order) : Bool := order.type = .ioc ∨ order.tif = .ioc

def isFok (order : Order) : Bool := order.type = .fok ∨ order.tif = .fok

/-- `generate_fill` on the order itself. The average is computed in `double`. -/
def filledBy (order : Order) (price qty : ℤ) : Order :=
  { order with
    filledQuantity := order.filledQuantity + qty
    avgFillPrice :=
      if order.filledQuantity + qty > 0 then
        Platform.truncate <| P.div
          (P.add (P.mul (P.ofInt order.avgFillPrice) (P.ofInt order.filledQuantity))
            (P.mul (P.ofInt price) (P.ofInt qty)))
          (P.ofInt (order.filledQuantity + qty))
      else order.avgFillPrice }

def fillReport (order : Order) (price qty : ℤ) : ExecutionReport :=
  { orderId := order.id
    execId := x.nextExecId
    state := if order.leavesQty = 0 then .filled else .partiallyFilled
    lastPrice := price
    lastQuantity := qty
    avgPrice := order.avgFillPrice
    cumQuantity := order.filledQuantity
    leavesQuantity := order.leavesQty
    venueId := x.config.venueId }

/-- What `generate_reject` and `generate_cancel_ack` have in common. -/
def closingReport (order : Order) (state : OrderState) (text : FixedString 64) : ExecutionReport :=
  { orderId := order.id
    execId := x.nextExecId
    state := state
    avgPrice := order.avgFillPrice
    cumQuantity := order.filledQuantity
    venueId := x.config.venueId
    text := text }

def rejectReport (order : Order) (reason : String) : ExecutionReport :=
  x.closingReport order .rejected (.assign (FixedString.ascii reason))

def cancelReport (order : Order) : ExecutionReport := x.closingReport order .canceled default

structure Matched where
  active : Option Order
  reports : List ExecutionReport

def unmatched (order : Order) (fokReason : String) : Matched :=
  if isFok order then ⟨none, [x.rejectReport order fokReason]⟩
  else if isIoc order then ⟨none, [x.cancelReport order]⟩
  else ⟨some order, []⟩

def partialQuantity (remaining : ℤ) (pct : ℚ) : ℤ :=
  max 1 (min (Platform.truncate (P.mul (P.ofInt remaining) pct)) (remaining - 1))

/-- `try_match` from the fill-probability gate on. Where `assert(remaining > 0)` fails there is no
outcome. -/
def tryFill (order : Order) (price : ℤ) (draws : Draws) : Option Matched :=
  if draws.fill > x.config.fillProbability then some (x.unmatched order "FOK fill probability miss")
  else if order.leavesQty ≤ 0 then none
  else if !isFok order && draws.partialFill < x.config.partialFillProbability &&
      order.leavesQty > 1 then
    let qty := partialQuantity P order.leavesQty draws.pct
    let filled := filledBy P order price qty
    let fill := x.fillReport filled price qty
    if isIoc order then
      some ⟨none, [fill, { x with nextExecId := x.nextExecId + 1 }.cancelReport filled]⟩
    else some ⟨some filled, [fill]⟩
  else some ⟨none, [x.fillReport (filledBy P order price order.leavesQty) price order.leavesQty]⟩

def tryMatch (order : Order) (draws : Draws) : Option Matched :=
  if draws.reject < x.config.rejectProbability then
    some ⟨none, [x.rejectReport order "Exchange rejected order"]⟩
  else
    match x.executable order with
    | none => some (x.unmatched order "FOK order not fully executable")
    | some price => x.tryFill P order price draws

def settle (id : ℕ) (internal : InternalOrder) (m : Matched) : SimulatedExchange :=
  { x with
    activeOrders := Function.update x.activeOrders id
      (m.active.map fun order => { internal with order := order })
    pendingQueue := x.pendingQueue ++ (if m.active.isSome then [id] else [])
    nextExecId := x.nextExecId + m.reports.length }

/-- One turn of the loop of `process_matching`, for the id at the front of the queue. -/
def matchFront (draws : Draws) : Option (SimulatedExchange × List ExecutionReport) :=
  match x.pendingQueue with
  | [] => some (x, [])
  | id :: queue =>
    let x := { x with pendingQueue := queue }
    match x.activeOrders id with
    | none => some (x, [])
    | some internal =>
      if internal.pendingCancel then
        let m : Matched := ⟨none, [x.cancelReport internal.order]⟩
        some (x.settle id internal m, m.reports)
      else (x.tryMatch P internal.order draws).map fun m => (x.settle id internal m, m.reports)

def matchTurns (draws : ℕ → Draws) : ℕ → ℕ → SimulatedExchange →
    Option (SimulatedExchange × List ExecutionReport)
  | 0, _, x => some (x, [])
  | n + 1, i, x =>
    match x.matchFront P (draws i) with
    | none => none
    | some (x, reports) =>
      (matchTurns draws n (i + 1) x).map fun (x, later) => (x, reports ++ later)

def processMatching (draws : ℕ → Draws) : Option (SimulatedExchange × List ExecutionReport) :=
  matchTurns P draws x.pendingQueue.length 0 x

structure Closing (o : Order) (r : ExecutionReport) : Prop where
  orderId : r.orderId = o.id
  state : r.state = .canceled ∨ r.state = .rejected
  lastQuantity : r.lastQuantity = 0
  cumQuantity : r.cumQuantity = o.filledQuantity

structure Filling (o o' : Order) (r : ExecutionReport) : Prop where
  order : ∃ avg, o' = { o with filledQuantity := o.filledQuantity + r.lastQuantity, avgFillPrice := avg }
  orderId : r.orderId = o.id
  state : r.state = if o'.leavesQty = 0 then .filled else .partiallyFilled
  lastQuantity_pos : 0 < r.lastQuantity
  lastQuantity_le : r.lastQuantity ≤ o.leavesQty
  cumQuantity : r.cumQuantity = o'.filledQuantity

/-- Everything a turn can do with an order. A rejection that was not drawn is of a FOK order, and
only an order that is not FOK trades in part. -/
inductive Outcome (x : SimulatedExchange) (draws : Draws) (o : Order) : Matched → Prop
  | rests : Outcome x draws o ⟨some o, []⟩
  | closes {r} (hr : Closing o r)
      (hwhy : r.state = .rejected → draws.reject < x.config.rejectProbability ∨ isFok o = true) :
      Outcome x draws o ⟨none, [r]⟩
  | fills {o' r} (hf : Filling o o' r) (hfull : o'.leavesQty = 0) : Outcome x draws o ⟨none, [r]⟩
  | fillsPart {o' r} (hf : Filling o o' r) (hleft : 0 < o'.leavesQty) (hfok : isFok o = false) :
      Outcome x draws o ⟨some o', [r]⟩
  | fillsPartAndCloses {o' r c} (hf : Filling o o' r) (hleft : 0 < o'.leavesQty)
      (hfok : isFok o = false) (hc : Closing o' c) (hstate : c.state = .canceled) :
      Outcome x draws o ⟨none, [r, c]⟩

variable {P} {x} {o : Order} {d : Draws}

theorem closing_cancel : Closing o (x.cancelReport o) := ⟨rfl, .inl rfl, rfl, rfl⟩

theorem closing_reject (reason : String) : Closing o (x.rejectReport o reason) := ⟨rfl, .inr rfl, rfl, rfl⟩

theorem filling_fillReport {price qty : ℤ} (hq : 0 < qty) (hle : qty ≤ o.leavesQty) :
    Filling o (filledBy P o price qty) (x.fillReport (filledBy P o price qty) price qty) :=
  ⟨⟨_, rfl⟩, rfl, rfl, hq, hle, rfl⟩

theorem filledBy_leavesQty {price qty : ℤ} : (filledBy P o price qty).leavesQty = o.leavesQty - qty := by
  simp only [filledBy, Order.leavesQty]
  omega

theorem unmatched_outcome (reason : String) : Outcome x d o (x.unmatched o reason) := by
  unfold unmatched
  split_ifs with hfok
  · exact .closes (closing_reject reason) fun _ => .inr hfok
  · exact .closes closing_cancel fun h => by cases h
  · exact .rests

theorem partialQuantity_bounds {n : ℤ} (h : 1 < n) (pct : ℚ) :
    0 < partialQuantity P n pct ∧ partialQuantity P n pct < n := by
  unfold partialQuantity
  omega

theorem tryFill_outcome {price : ℤ} {m : Matched} (h : x.tryFill P o price d = some m) :
    Outcome x d o m := by
  unfold tryFill at h
  split_ifs at h with hmiss hassert hpart hioc
  · cases h
    exact unmatched_outcome _
  all_goals cases h
  · simp only [Bool.and_eq_true, Bool.not_eq_true', decide_eq_true_eq] at hpart
    obtain ⟨hpos, hlt⟩ := partialQuantity_bounds (P := P) hpart.2 d.pct
    refine .fillsPartAndCloses (filling_fillReport hpos hlt.le) ?_ hpart.1.1 closing_cancel rfl
    rw [filledBy_leavesQty]
    omega
  · simp only [Bool.and_eq_true, Bool.not_eq_true', decide_eq_true_eq] at hpart
    obtain ⟨hpos, hlt⟩ := partialQuantity_bounds (P := P) hpart.2 d.pct
    refine .fillsPart (filling_fillReport hpos hlt.le) ?_ hpart.1.1
    rw [filledBy_leavesQty]
    omega
  · refine .fills (filling_fillReport (not_le.mp hassert) le_rfl) ?_
    rw [filledBy_leavesQty, sub_self]

theorem tryMatch_outcome {m : Matched} (h : x.tryMatch P o d = some m) : Outcome x d o m := by
  unfold tryMatch at h
  split_ifs at h with hreject
  · cases h
    exact .closes (closing_reject _) fun _ => .inl hreject
  · split at h
    · cases h
      exact unmatched_outcome _
    · exact tryFill_outcome h

theorem matchFront_cases {x' : SimulatedExchange} {reports : List ExecutionReport}
    (h : x.matchFront P d = some (x', reports)) :
    (∃ queue, x' = { x with pendingQueue := queue } ∧ reports = [] ∧
        (x.pendingQueue = queue ∨ ∃ id, x.pendingQueue = id :: queue ∧ x.activeOrders id = none)) ∨
      ∃ id queue internal m, x.pendingQueue = id :: queue ∧ x.activeOrders id = some internal ∧
        x' = { x with pendingQueue := queue }.settle id internal m ∧ reports = m.reports ∧
        Outcome x d internal.order m ∧
        (internal.pendingCancel = false ∨ ∃ r, m = ⟨none, [r]⟩ ∧ r.state = .canceled) := by
  unfold matchFront at h
  split at h
  next hqueue =>
    cases h
    exact .inl ⟨x.pendingQueue, rfl, rfl, .inl rfl⟩
  next id queue hqueue =>
    simp only at h
    split at h
    next hnone =>
      cases h
      exact .inl ⟨queue, rfl, rfl, .inr ⟨id, hqueue, hnone⟩⟩
    next internal hactive =>
      split_ifs at h with hcancel
      · cases h
        exact .inr ⟨id, queue, internal, _, hqueue, hactive, rfl, rfl,
          .closes closing_cancel fun h => (by cases h), .inr ⟨_, rfl, rfl⟩⟩
      · obtain ⟨m, hm, heq⟩ := Option.map_eq_some_iff.mp h
        cases heq
        exact .inr ⟨id, queue, internal, m, hqueue, hactive, rfl, rfl, tryMatch_outcome hm,
          .inl (by simpa using hcancel)⟩

theorem executable_respects {price : ℤ} (h : x.executable o = some price) (ht : o.type ≠ .market) :
    LimitPrice.Respects o.side o.price price := by
  unfold executable at h
  simp only [ht, false_or] at h
  cases hside : o.side with
  | buy =>
    rw [hside] at h
    obtain ⟨⟨-, hcross⟩, hprice⟩ := Option.ite_none_right_eq_some.mp h
    rw [← Option.some.inj hprice]
    exact hcross
  | sell =>
    rw [hside] at h
    obtain ⟨⟨-, hcross⟩, hprice⟩ := Option.ite_none_right_eq_some.mp h
    rw [← Option.some.inj hprice]
    exact hcross

theorem unmatched_trades (reason : String) : ∀ r ∈ (x.unmatched o reason).reports, ¬0 < r.lastQuantity := by
  unfold unmatched
  split_ifs <;> simp [rejectReport, cancelReport, closingReport]

theorem tryFill_trades {price : ℤ} {m : Matched} (h : x.tryFill P o price d = some m) :
    ∀ r ∈ m.reports, 0 < r.lastQuantity →
      r.lastPrice = price ∧ r.leavesQuantity = o.quantity - r.cumQuantity := by
  unfold tryFill at h
  split_ifs at h
  · cases h
    exact fun r hr hlast => absurd hlast (unmatched_trades _ r hr)
  all_goals
    cases h
    simp [fillReport, filledBy, cancelReport, closingReport, Order.leavesQty]

theorem tryMatch_trades {m : Matched} (h : x.tryMatch P o d = some m) :
    ∀ r ∈ m.reports, 0 < r.lastQuantity →
      x.executable o = some r.lastPrice ∧ r.leavesQuantity = o.quantity - r.cumQuantity := by
  unfold tryMatch at h
  split_ifs at h
  · cases h
    simp [rejectReport, closingReport]
  · split at h
    · cases h
      exact fun r hr hlast => absurd hlast (unmatched_trades _ r hr)
    next price hprice =>
      intro r hr hlast
      obtain ⟨hlastPrice, hleaves⟩ := tryFill_trades h r hr hlast
      exact ⟨by rw [hprice, hlastPrice], hleaves⟩

theorem matchFront_trades {x' : SimulatedExchange} {reports : List ExecutionReport}
    (h : x.matchFront P d = some (x', reports)) : ∀ r ∈ reports, 0 < r.lastQuantity →
    ∃ id internal, x.pendingQueue.head? = some id ∧ x.activeOrders id = some internal ∧
      internal.pendingCancel = false ∧ x.executable internal.order = some r.lastPrice ∧
      r.leavesQuantity = internal.order.quantity - r.cumQuantity := by
  unfold matchFront at h
  split at h
  · cases h
    simp
  next id queue hqueue =>
    simp only at h
    split at h
    · cases h
      simp
    next internal hactive =>
      split_ifs at h with hcancel
      · cases h
        simp [cancelReport, closingReport]
      · obtain ⟨m, hm, heq⟩ := Option.map_eq_some_iff.mp h
        cases heq
        intro r hr hlast
        obtain ⟨hprice, hleaves⟩ := tryMatch_trades hm r hr hlast
        exact ⟨id, internal, by rw [hqueue]; rfl, hactive, Bool.eq_false_iff.mpr hcancel, hprice, hleaves⟩

theorem tryFill_isSome {price : ℤ} (hleft : 0 < o.leavesQty) : (x.tryFill P o price d).isSome := by
  unfold tryFill
  rw [if_neg (not_le.mpr hleft)]
  simp only
  split_ifs <;> rfl

theorem tryMatch_isSome (hleft : 0 < o.leavesQty) : (x.tryMatch P o d).isSome := by
  unfold tryMatch
  split_ifs
  · rfl
  · split
    · rfl
    · exact tryFill_isSome hleft

theorem matchFront_isSome
    (hleft : ∀ id internal, x.activeOrders id = some internal → 0 < internal.order.leavesQty) :
    (x.matchFront P d).isSome := by
  unfold matchFront
  split
  · rfl
  next id queue hqueue =>
    simp only
    split
    · rfl
    next internal hactive =>
      split_ifs
      · rfl
      · rw [Option.isSome_map]
        exact tryMatch_isSome (hleft id internal hactive)

def TurnsMeet (P : Platform) (C : SimulatedExchange → Draws → Prop) (draws : ℕ → Draws) :
    ℕ → ℕ → SimulatedExchange → Prop
  | 0, _, _ => True
  | n + 1, i, x => C x (draws i) ∧
      ∀ x' reports, x.matchFront P (draws i) = some (x', reports) → TurnsMeet P C draws n (i + 1) x'

theorem turnsMeet_true {draws : ℕ → Draws} (n i : ℕ) (x : SimulatedExchange) :
    TurnsMeet P (fun _ _ => True) draws n i x := by
  induction n generalizing i x with
  | zero => trivial
  | succ n ih => exact ⟨trivial, fun x' _ _ => ih (i + 1) x'⟩

/-- The loop rule: what every turn keeps, the whole loop keeps. -/
theorem matchTurns_invariant {I : SimulatedExchange → List ExecutionReport → Prop}
    {C : SimulatedExchange → Draws → Prop} {draws : ℕ → Draws} {n i : ℕ} {x x' : SimulatedExchange}
    {reports : List ExecutionReport} (before : List ExecutionReport)
    (hturn : ∀ x d x' before new, I x before → C x d → x.matchFront P d = some (x', new) →
      I x' (before ++ new))
    (hi : I x before) (hc : TurnsMeet P C draws n i x)
    (h : matchTurns P draws n i x = some (x', reports)) : I x' (before ++ reports) := by
  induction n generalizing i x before reports with
  | zero =>
    cases h
    simpa using hi
  | succ n ih =>
    unfold matchTurns at h
    split at h
    · cases h
    next y new hfront =>
      obtain ⟨⟨z, later⟩, hlater, heq⟩ := Option.map_eq_some_iff.mp h
      cases heq
      rw [← List.append_assoc]
      exact ih _ (hturn _ _ _ _ _ hi hc.1 hfront) (hc.2 _ _ hfront) hlater

theorem matchTurns_isSome {J : SimulatedExchange → Prop} {draws : ℕ → Draws} {n i : ℕ}
    (hturn : ∀ x d, J x → ∃ x' new, x.matchFront P d = some (x', new) ∧ J x') (hj : J x) :
    (matchTurns P draws n i x).isSome := by
  induction n generalizing i x with
  | zero => rfl
  | succ n ih =>
    obtain ⟨x', new, hfront, hj'⟩ := hturn x (draws i) hj
    unfold matchTurns
    rw [hfront]
    simp only [Option.isSome_map]
    exact ih hj'

theorem Outcome.id_eq {m : Matched} (h : Outcome x d o m) :
    (∀ o' ∈ m.active, o'.id = o.id) ∧ ∀ r ∈ m.reports, r.orderId = o.id := by
  have hfilled {o' : Order} {r : ExecutionReport} (hf : Filling o o' r) : o'.id = o.id := by
    obtain ⟨avg, rfl⟩ := hf.order
    rfl
  cases h with
  | rests => simp
  | closes hr => simp [hr.orderId]
  | fills hf => simp [hf.orderId]
  | fillsPart hf => simp [hf.orderId, hfilled hf]
  | fillsPartAndCloses hf hleft hfok hc => simp [hf.orderId, hc.orderId, hfilled hf]

theorem settle_self (id : ℕ) (internal : InternalOrder) (m : Matched) :
    (x.settle id internal m).activeOrders id = m.active.map fun o => { internal with order := o } := by
  simp [settle]

theorem settle_other {id other : ℕ} (hne : other ≠ id) (internal : InternalOrder) (m : Matched) :
    (x.settle id internal m).activeOrders other = x.activeOrders other := by
  simp [settle, hne]

theorem sendOrder_cases (order : Order) : x.sendOrder order = (false, x, []) ∨
    x.connected = true ∧ x.activeOrders order.id = none ∧ x.sendOrder order = (true,
      { x with
        activeOrders := Function.update x.activeOrders order.id (some { order := order })
        pendingQueue := x.pendingQueue ++ [order.id]
        nextExecId := x.nextExecId + 1 },
      [x.ackReport order]) := by
  unfold sendOrder
  split_ifs with hconn hactive
  · exact .inl rfl
  · exact .inl rfl
  · exact .inr ⟨by simpa using hconn, by simpa using hactive, rfl⟩

theorem cancelOrder_answers (request : CancelRequest) : x.cancelOrder request = (false, x) ∨
    ∃ internal, x.activeOrders request.orderId = some internal ∧
      x.cancelOrder request = (true, { x with
        activeOrders := Function.update x.activeOrders request.orderId
          (some { internal with pendingCancel := true }) }) := by
  unfold cancelOrder
  split_ifs
  · exact .inl rfl
  · split
    · exact .inl rfl
    next internal hactive => exact .inr ⟨internal, hactive, rfl⟩

theorem cancelOrder_cases (request : CancelRequest) : (x.cancelOrder request).2 = x ∨
    ∃ internal, x.activeOrders request.orderId = some internal ∧
      (x.cancelOrder request).2 = { x with
        activeOrders := Function.update x.activeOrders request.orderId
          (some { internal with pendingCancel := true }) } := by
  obtain hsame | ⟨internal, hactive, hset⟩ := x.cancelOrder_answers request
  · exact .inl (by rw [hsame])
  · exact .inr ⟨internal, hactive, by rw [hset]⟩

def Keyed (x : SimulatedExchange) : Prop :=
  ∀ id internal, x.activeOrders id = some internal → internal.order.id = id

theorem Keyed.matchFront {x' : SimulatedExchange} {reports : List ExecutionReport}
    (hk : Keyed x) (h : x.matchFront P d = some (x', reports)) : Keyed x' := by
  obtain ⟨queue, rfl, -⟩ | ⟨id, queue, internal, m, -, hactive, rfl, -, hout, -⟩ := matchFront_cases h
  · exact hk
  · intro k i hi
    by_cases hki : k = id
    · subst hki
      rw [settle_self] at hi
      obtain ⟨o, ho, rfl⟩ := Option.map_eq_some_iff.mp hi
      exact (hout.id_eq.1 o ho).trans (hk k internal hactive)
    · rw [settle_other hki] at hi
      exact hk k i hi

theorem Keyed.processMatching {x' : SimulatedExchange} {draws : ℕ → Draws}
    {reports : List ExecutionReport} (hk : Keyed x)
    (h : x.processMatching P draws = some (x', reports)) : Keyed x' :=
  matchTurns_invariant (I := fun x _ => Keyed x) []
    (fun _ _ _ _ _ hk _ h => hk.matchFront h) hk (turnsMeet_true _ _ _) h

theorem Keyed.sendOrder (hk : Keyed x) (order : Order) : Keyed (x.sendOrder order).2.1 := by
  obtain hsame | ⟨-, -, hsent⟩ := x.sendOrder_cases order
  · rwa [hsame]
  · rw [hsent]
    intro k i hi
    by_cases hko : k = order.id
    · subst hko
      obtain rfl : _ = i := by simpa using hi
      rfl
    · exact hk k i (by simpa [hko] using hi)

theorem Keyed.cancelOrder (hk : Keyed x) (request : CancelRequest) :
    Keyed (x.cancelOrder request).2 := by
  obtain hsame | ⟨internal, hactive, hset⟩ := x.cancelOrder_cases request
  · rwa [hsame]
  · rw [hset]
    intro k i hi
    by_cases hkr : k = request.orderId
    · subst hkr
      obtain rfl : _ = i := by simpa using hi
      exact hk _ internal hactive
    · exact hk k i (by simpa [hkr] using hi)

end SimulatedExchange

end Klett.Sor
