import Mathlib.Algebra.Order.BigOperators.Group.Finset
import Klett.Lib.Parties
import Klett.Sor.Children

namespace Klett.Sor

open Klett.Lib

namespace Gateway

variable {V : Type} (g : Gateway V)

def sumChildren (m : Order → ℤ) : ℤ := ∑ id ∈ Finset.range g.nextOrderId, (g.child id).elim 0 m

def sumLive (m : Order → ℤ) : ℤ := g.sumChildren fun o => if o.isTerminal then 0 else m o

variable {g} {g' : Gateway V} {m : Order → ℤ} {es : List Event} {unused : List ℕ} {id : ℕ} {o : Order}

theorem sumChildren_same (hn : Numbered es g unused) (hc : g'.child = g.child)
    (hid : g.nextOrderId ≤ g'.nextOrderId) : g'.sumChildren m = g.sumChildren m := by
  unfold sumChildren
  rw [hc]
  refine (Finset.sum_subset (Finset.range_subset_range.mpr hid) fun id _ hnew => ?_).symm
  cases hchild : g.child id with
  | none => rfl
  | some o => exact absurd (Finset.mem_range.mpr (child_bounded hn hchild)) hnew

theorem sumChildren_change {o' : Order} (hlt : id < g.nextOrderId) (hid : g'.nextOrderId = g.nextOrderId)
    (hc : g.child id = some o) (hc' : g'.child = Function.update g.child id (some o')) :
    g'.sumChildren m = g.sumChildren m - m o + m o' := by
  have hsum := sum_update (fun child : Option Order => child.elim 0 m) g.child (some o') (Finset.mem_range.mpr hlt)
  rw [hc, Option.elim_some, Option.elim_some] at hsum
  unfold sumChildren
  rw [hid, hc']
  omega

theorem le_sumChildren (hlt : id < g.nextOrderId) (hm : ∀ k o, g.child k = some o → 0 ≤ m o)
    (hc : g.child id = some o) : m o ≤ g.sumChildren m := by
  have hterm : m o = (g.child id).elim 0 m := by rw [hc, Option.elim_some]
  rw [hterm]
  refine Finset.single_le_sum (f := fun k => (g.child k).elim 0 m) (fun k _ => ?_) (Finset.mem_range.mpr hlt)
  cases hchild : g.child k with
  | none => exact le_rfl
  | some o => exact hm k o hchild

theorem sumLive_eq (hlive : ∀ k o, g.child k = some o → o.isTerminal = false) :
    g.sumLive m = g.sumChildren m := by
  unfold sumLive sumChildren
  refine Finset.sum_congr rfl fun k _ => ?_
  cases hchild : g.child k with
  | none => rfl
  | some o => rw [Option.elim_some, Option.elim_some, hlive k o hchild, if_neg Bool.false_ne_true]

theorem sumLive_lt (hm : ∀ o, 0 ≤ m o) (hlt : id < g.nextOrderId) (hc : g.child id = some o)
    (hended : o.isTerminal = true) (hpos : 0 < m o) : g.sumLive m < g.sumChildren m := by
  unfold sumLive sumChildren
  refine Finset.sum_lt_sum (fun k _ => ?_) ⟨id, Finset.mem_range.mpr hlt, ?_⟩
  · cases g.child k with
    | none => exact le_rfl
    | some o =>
      rw [Option.elim_some, Option.elim_some]
      split_ifs
      · exact hm o
      · exact le_rfl
  · rw [hc, Option.elim_some, Option.elim_some, if_pos hended]
    exact hpos

theorem sumChildren_createChild (order : Order) (slice : Slice) :
    (g.createChild order slice).sumChildren m =
      g.sumChildren m + m (childOf order slice g.nextOrderId) := by
  have hold : ∀ k ∈ Finset.range g.nextOrderId,
      ((g.createChild order slice).child k).elim 0 m = (g.child k).elim 0 m := by
    intro k hk
    rw [child_createChild, Function.update_of_ne (Finset.mem_range.mp hk).ne]
  have hnext : (g.createChild order slice).nextOrderId = g.nextOrderId + 1 := rfl
  unfold sumChildren
  rw [hnext, Finset.sum_range_succ, Finset.sum_congr rfl hold, child_createChild, Function.update_self,
    Option.elim_some]

section Report

variable {r : ExecutionReport} {p : ℕ} {o o' parent : Order}

theorem riskAfter_of_no_trade (h : ¬0 < r.lastQuantity) : g.riskAfter r = g.riskManager := by
  have hfill : (g.execHandler.onExecutionReport r).2.fill = none := by
    unfold ExecutionHandler.onExecutionReport
    split
    · rfl
    · split
      · rfl
      · exact if_neg fun hcond => h hcond.1
  unfold riskAfter
  rw [hfill]

theorem riskAfter_ignored (hi : ∀ o, g.execHandler.orders r.orderId = some o → o.onReport r = none) :
    g.riskAfter r = g.riskManager := by
  unfold riskAfter
  rw [ExecutionHandler.onExecutionReport_ignored hi]

theorem riskAfter_trade (hw : g.execHandler.WellFormed) (hr : g.execHandler.Reports r p o o' parent)
    (hhook : g.execHandler.hasFillCallback = true) (h : 0 < r.lastQuantity) :
    g.riskAfter r = g.riskManager.onFill o.symbol o.side r.lastQuantity r.lastPrice := by
  obtain ⟨_, _, _, _, _, hsame⟩ := Order.sameTerms_onReport hr.applied
  unfold riskAfter
  rw [(hw.onExecutionReport_child hr).2.2, if_pos ⟨h, hhook⟩, hsame]

end Report

end Gateway

namespace RiskAccounting

open Klett.Sor.System

variable {V : Type}

def isOf (symbol : Symbol) (o : Order) : ℤ := if o.symbol = symbol then 1 else 0

/-- A reported trade is a trade of a child, goes on from what the child has traded, and is within its
quantity. -/
def TradesAddUp [VenueAdapter V] : Machine.Guard (System V) (Action V) Event := fun _ s a =>
  ∀ r ∈ s.nextReport a, ∀ o ∈ s.gateway.execHandler.orders r.orderId, (o.onReport r).isSome →
    0 < r.lastQuantity → s.gateway.execHandler.childToParent r.orderId ≠ none ∧
      r.cumQuantity = o.filledQuantity + r.lastQuantity ∧ r.cumQuantity ≤ o.quantity

def ChildrenStay [VenueAdapter V] (q : Order → Prop) : Machine.Guard (System V) (Action V) Event := fun _ s a =>
  ∀ r ∈ s.nextReport a, ∀ o ∈ s.gateway.child r.orderId, ∀ o' ∈ o.onReport r, q o'

abbrev NoChildEnds [VenueAdapter V] : Machine.Guard (System V) (Action V) Event :=
  ChildrenStay fun o => o.isTerminal = false

instance [VenueAdapter V] (k : Trace (Action V) Event) (s : System V) (a : Action V) :
    Decidable (TradesAddUp k s a) :=
  inferInstanceAs (Decidable (∀ r ∈ s.nextReport a, ∀ o ∈ s.gateway.execHandler.orders r.orderId, _ → _))

instance [VenueAdapter V] (q : Order → Prop) [DecidablePred q] (k : Trace (Action V) Event) (s : System V)
    (a : Action V) : Decidable (ChildrenStay q k s a) :=
  inferInstanceAs (Decidable (∀ r ∈ s.nextReport a, ∀ o ∈ s.gateway.child r.orderId, ∀ o' ∈ o.onReport r, _))

/-- Everything a child has been given is accounted for: the risk manager counts all children, and what
each has left to trade is pending. All children are `q`. -/
structure Reserved (q : Order → Prop) (g : Gateway V) : Prop where
  hooked : g.execHandler.hasFillCallback = true
  within : ∀ {id o}, g.child id = some o → o.filledQuantity ≤ o.quantity
  kept : ∀ {id o}, g.child id = some o → q o
  counted : ∀ symbol, (g.riskManager.positions symbol).openOrderCount = g.sumChildren (isOf symbol)
  pending : ∀ symbol side,
    (g.riskManager.positions symbol).pending side = g.sumChildren (reserved symbol side)

namespace Reserved

variable {q : Order → Prop} {es : List Event} {g g' : Gateway V} {unused : List ℕ} {order : Order}
  {r : ExecutionReport}

theorem same (hb : Reserved q g) (hn : Numbered es g unused) (hc : g'.child = g.child)
    (hhook : g'.execHandler.hasFillCallback = g.execHandler.hasFillCallback)
    (hp : g'.riskManager.positions = g.riskManager.positions) (hid : g.nextOrderId ≤ g'.nextOrderId) :
    Reserved q g' := by
  refine ⟨by rw [hhook]; exact hb.hooked, ?_, ?_, fun symbol => ?_, fun symbol side => ?_⟩
  · rw [hc]
    exact hb.within
  · rw [hc]
    exact hb.kept
  · rw [hp, Gateway.sumChildren_same hn hc hid]
    exact hb.counted symbol
  · rw [hp, Gateway.sumChildren_same hn hc hid]
    exact hb.pending symbol side

theorem createChild {slice : Slice} (hb : Reserved q g) (hq : q (Gateway.childOf order slice g.nextOrderId))
    (hslice : 0 ≤ slice.quantity) : Reserved q (g.createChild order slice) := by
  have hchild {id : ℕ} {o : Order} (hc : (g.createChild order slice).child id = some o) :
      o = Gateway.childOf order slice g.nextOrderId ∨ g.child id = some o := by
    rw [Gateway.child_createChild] at hc
    by_cases heq : id = g.nextOrderId
    · rw [heq, Function.update_self] at hc
      exact .inl (Option.some.inj hc).symm
    · rw [Function.update_of_ne heq] at hc
      exact .inr hc
  have hrisk : (g.createChild order slice).riskManager =
      g.riskManager.onOrderAccepted (Gateway.childOf order slice g.nextOrderId) := rfl
  refine ⟨hb.hooked, fun hc => ?_, fun hc => ?_, fun symbol => ?_, fun symbol side => ?_⟩
  · rcases hchild hc with rfl | hold
    · exact hslice
    · exact hb.within hold
  · rcases hchild hc with rfl | hold
    · exact hq
    · exact hb.kept hold
  · rw [Gateway.sumChildren_createChild, hrisk, RiskManager.onOrderAccepted_openOrderCount, hb.counted]
    rfl
  · rw [Gateway.sumChildren_createChild, hrisk, RiskManager.onOrderAccepted_pending, hb.pending]
    simp only [reserved, Gateway.childOf_symbol, Gateway.childOf_side, Order.leavesQty,
      Gateway.childOf_quantity, Gateway.childOf_filledQuantity, sub_zero]
    congr 2

theorem reserved_trade {o o' : Order} (hr : o.onReport r = some o')
    (hadds : 0 < r.lastQuantity → r.cumQuantity = o.filledQuantity + r.lastQuantity) (symbol : Symbol)
    (side : Side) : reserved symbol side o' = reserved symbol side o -
      if o.symbol = symbol ∧ o.side = side then max 0 r.lastQuantity else 0 := by
  obtain ⟨-, -, -, -, -, hfilled⟩ := Order.onReport_fields hr
  obtain ⟨_, _, _, _, _, hsame⟩ := Order.sameTerms_onReport hr
  have hleaves : o'.leavesQty = o.leavesQty - max 0 r.lastQuantity := by
    have hquantity : o'.quantity = o.quantity := by rw [hsame]
    unfold Order.leavesQty
    rw [hfilled, hquantity]
    split_ifs with htrade
    · have hcum := hadds htrade
      omega
    · omega
  have hterms : o'.symbol = o.symbol ∧ o'.side = o.side := by rw [hsame]; exact ⟨rfl, rfl⟩
  unfold reserved
  rw [hterms.1, hterms.2, hleaves]
  split_ifs <;> omega

/-- A trade that goes on from what its child has traded takes from the pending quantity just what it
takes from the child. -/
theorem report (hb : Reserved q g) (hn : Numbered es g unused)
    (hadds : ∀ o o', g.execHandler.orders r.orderId = some o → o.onReport r = some o' → 0 < r.lastQuantity →
      g.execHandler.childToParent r.orderId ≠ none ∧ r.cumQuantity = o.filledQuantity + r.lastQuantity ∧
        r.cumQuantity ≤ o.quantity)
    (hq : ∀ o o', g.child r.orderId = some o → o.onReport r = some o' → q o') :
    Reserved q (g.applyReport r) := by
  obtain ⟨fills, happly⟩ := g.applyReport_frame (r := r)
  obtain ⟨orders, hframe⟩ := g.execHandler.onExecutionReport_frame r
  have hhook : (g.applyReport r).execHandler.hasFillCallback = g.execHandler.hasFillCallback := by
    rw [happly, hframe]
  have hnext : (g.applyReport r).nextOrderId = g.nextOrderId := by rw [happly]
  have hrisk : (g.applyReport r).riskManager = g.riskAfter r := by rw [happly]
  obtain hignored | ⟨o, o', ho, hr, hroot⟩ | ⟨p, o, o', parent, hr⟩ := hn.handler.report_cases r
  · refine hb.same hn (Gateway.child_applyReport_ignored hignored) hhook ?_ hnext.ge
    rw [hrisk, Gateway.riskAfter_ignored hignored]
  · have hnotrade : ¬0 < r.lastQuantity := fun htrade => (hadds o o' ho hr htrade).1 hroot
    refine hb.same hn (Gateway.child_applyReport_root hn.handler ho hr hroot) hhook ?_ hnext.ge
    rw [hrisk, Gateway.riskAfter_of_no_trade hnotrade]
  · have hc := Gateway.child_of_parent hr.parentOf hr.order
    have hc' := Gateway.child_applyReport hn.handler hr
    have hlt := Gateway.child_bounded hn hc
    have hadds' (htrade : 0 < r.lastQuantity) := (hadds o o' hr.order hr.applied htrade).2
    have hchange (m : Order → ℤ) := Gateway.sumChildren_change (m := m) hlt hnext hc hc'
    have hreserved (symbol : Symbol) (side : Side) :=
      reserved_trade hr.applied (fun htrade => (hadds' htrade).1) symbol side
    obtain ⟨-, -, -, hquantity, -, hfilled⟩ := Order.onReport_fields hr.applied
    have hchild {id : ℕ} {o'' : Order} (h : (g.applyReport r).child id = some o'') :
        o'' = o' ∧ id = r.orderId ∨ g.child id = some o'' := by
      rw [hc'] at h
      by_cases heq : id = r.orderId
      · rw [heq, Function.update_self] at h
        exact .inl ⟨(Option.some.inj h).symm, heq⟩
      · rw [Function.update_of_ne heq] at h
        exact .inr h
    refine ⟨by rw [hhook]; exact hb.hooked, fun h => ?_, fun h => ?_, fun symbol => ?_,
      fun symbol side => ?_⟩
    · obtain ⟨rfl, -⟩ | hold := hchild h
      · rw [hfilled, hquantity]
        split_ifs with htrade
        · exact (hadds' htrade).2
        · exact hb.within hc
      · exact hb.within hold
    · obtain ⟨rfl, -⟩ | hold := hchild h
      · exact hq o _ hc hr.applied
      · exact hb.kept hold
    · have hsymbol : isOf symbol o' = isOf symbol o := by
        obtain ⟨_, _, _, _, _, hsame⟩ := Order.sameTerms_onReport hr.applied
        rw [hsame]
        rfl
      rw [hchange, hsymbol, sub_add_cancel, ← hb.counted, hrisk]
      by_cases htrade : 0 < r.lastQuantity
      · rw [Gateway.riskAfter_trade hn.handler hr hb.hooked htrade, RiskManager.onFill_openOrderCount]
      · rw [Gateway.riskAfter_of_no_trade htrade]
    · rw [hchange, hreserved, hrisk, ← hb.pending]
      by_cases htrade : 0 < r.lastQuantity
      · rw [Gateway.riskAfter_trade hn.handler hr hb.hooked htrade, RiskManager.onFill_pending]
        split_ifs with hits
        · -- the pending quantity covers the trade, because it covers what the child has left
          have hcovers : reserved symbol side o ≤ (g.riskManager.positions symbol).pending side := by
            rw [hb.pending]
            refine Gateway.le_sumChildren hlt (fun k o hk => ?_) hc
            have hle := hb.within hk
            unfold reserved Order.leavesQty
            split_ifs <;> omega
          have hadded := hadds' htrade
          rw [reserved, if_pos hits, Order.leavesQty] at hcovers
          omega
        · omega
      · rw [Gateway.riskAfter_of_no_trade htrade, max_eq_left (not_lt.mp htrade)]
        split_ifs <;> omega

theorem frame (hb : Reserved q g) (hh : g'.execHandler = g.execHandler)
    (hp : g'.riskManager.positions = g.riskManager.positions) (hid : g'.nextOrderId = g.nextOrderId) :
    Reserved q g' := by
  have hc := Gateway.child_congr hh
  have hsum (m : Order → ℤ) : g'.sumChildren m = g.sumChildren m := by
    rw [Gateway.sumChildren, Gateway.sumChildren, hid, hc]
  refine ⟨by rw [hh]; exact hb.hooked, by rw [hc]; exact hb.within, by rw [hc]; exact hb.kept, ?_, ?_⟩
  · simpa only [hp, hsum] using hb.counted
  · simpa only [hp, hsum] using hb.pending

theorem calls (hb : Reserved q g) (hc : g.VenueCalls g') : Reserved q g' := by
  obtain ⟨_, _, rfl⟩ := hc
  exact hb.frame rfl rfl rfl

theorem admitted (hb : Reserved q g) (hn : Numbered es g unused) (hr : Ready es g unused order)
    (engine : RoutingEngine) (limiter : RateLimiter) :
    Reserved q (g.admitted (order.apply .submit) engine limiter) :=
  hb.same hn (Gateway.child_admitted hr engine limiter) rfl rfl le_rfl

section Steps

variable [VenueAdapter V] {P : Platform} {t : Readings}

theorem processSingleOrder (hnew : ∀ order slice id, q (Gateway.childOf order slice id))
    (hb : Reserved q g) (hn : Numbered es g unused) (hr : Ready es g unused order) :
    Reserved q (g.processSingleOrder P order t).1 :=
  (hn.processSingleOrder_invariant (I := fun _ g => Reserved q g) (Q := fun _ => True) hr
    (fun _ _ => hb.frame rfl rfl rfl) (fun _ engine limiter => hb.admitted hn hr engine limiter)
    (fun g' _ slice hslice _ _ _ hb' => by
      obtain ⟨_, -, -, hcalls⟩ := g'.dispatchSlice_eq (order.apply .submit) slice
      exact (hb'.createChild (hnew _ _ _) (Gateway.slicesFor_nonneg slice hslice)).calls hcalls)
    fun _ _ => trivial).2

theorem processReport (hnew : ∀ order slice id, q (Gateway.childOf order slice id)) (hb : Reserved q g)
    (hn : Numbered es g unused)
    (hadds : ∀ o o', g.execHandler.orders r.orderId = some o → o.onReport r = some o' → 0 < r.lastQuantity →
      g.execHandler.childToParent r.orderId ≠ none ∧ r.cumQuantity = o.filledQuantity + r.lastQuantity ∧
        r.cumQuantity ≤ o.quantity)
    (hq : ∀ o o', g.child r.orderId = some o → o.onReport r = some o' → q o') :
    Reserved q (g.processReport P r t).1 := by
  have happlied := hb.report hn hadds hq
  obtain ⟨done, -, ⟨-, heq⟩ | ⟨parent, hdue, heq⟩⟩ := g.processReport_cases (P := P) r t
  · rw [heq]
    exact happlied
  · rw [heq]
    exact happlied.processSingleOrder hnew (hn.applyReport r) (hn.reroute hdue).1

theorem step {s s' : System V} {a : Action V} {k : Trace (Action V) Event}
    (hnew : ∀ order slice id, q (Gateway.childOf order slice id)) (hb : Reserved q s.gateway)
    (hn : Numbered k.events s.gateway s.unused) (hadds : TradesAddUp k s a) (hstay : ChildrenStay q k s a)
    (h : (machine P).step s a = some (s', es)) : Reserved q s'.gateway := by
  cases step_effect h with
  | quiet hq =>
    have hc := Gateway.child_congr hq.execHandler
    exact hb.same hn hc (by rw [hq.execHandler]) hq.positions hq.nextOrderId
  | stopped hthread => exact hb.frame rfl rfl rfl
  | allocated => exact hb.same hn rfl rfl rfl (Nat.le_succ _)
  | @submitted request order nextOrderId queue hassign hpush =>
    refine hb.same hn rfl rfl rfl ?_
    unfold assignId at hassign
    split at hassign <;> cases hassign
    · exact Nat.le_succ _
    · exact le_rfl
  | @orderTaken order queue t hthread hpop =>
    obtain ⟨hpopped, hready, -⟩ := hn.pop hpop
    have hb' : Reserved q { s.gateway with orderQueue := queue } := hb.frame rfl rfl rfl
    exact hb'.processSingleOrder hnew hpopped hready
  | @cancelTaken request queue t =>
    have hb' : Reserved q { s.gateway with cancelQueue := queue } := hb.frame rfl rfl rfl
    obtain ⟨-, heq⟩ | ⟨-, es, -, hcalls, -⟩ := Gateway.processCancel_cases
      (g := { s.gateway with cancelQueue := queue }) request
    · rw [heq]
      exact hb'
    · exact hb'.calls hcalls
  | @reportTaken report queue t hthread hpop =>
    have hn' : Numbered k.events { s.gateway with reportQueue := queue } s.unused :=
      hn.quiet rfl rfl le_rfl
    have hb' : Reserved q { s.gateway with reportQueue := queue } := hb.frame rfl rfl rfl
    have hnext : s.nextReport (.execLoop t) = some report := nextReport_of_pop hthread hpop
    refine hb'.processReport hnew hn' (fun o o' ho hr => hadds report hnext o ho ?_)
      fun o o' hc hr => hstay report hnext o hc o' hr
    rw [hr]
    rfl
  | venueRan hfound hrun => exact hb.frame rfl rfl rfl
  | notified houtbox => exact hb.calls (s.gateway.onExecutionReport_calls _).1

theorem of_reach {C : Machine.Guard (System V) (Action V) Event} {venues : ℕ → Option V}
    {engine : RoutingEngine} {md : MarketDataAggregator} {limits : RiskLimits}
    {symbolLimits : Symbol → Option RiskLimits} {limiter : RateLimiter} {h : Trace (Action V) Event}
    {s : System V} (hnew : ∀ order slice id, q (Gateway.childOf order slice id))
    (hc : ∀ k t a, C k t a → FreshIds k t a ∧ TradesAddUp k t a ∧ ChildrenStay q k t a)
    (hr : (machine P).Reach C (initialized venues engine md limits symbolLimits limiter) h s) :
    Reserved q s.gateway := by
  have hboth : Numbered h.events s.gateway s.unused ∧ Reserved q s.gateway := by
    refine hr.invariant (I := fun h s => Numbered h.events s.gateway s.unused ∧ Reserved q s.gateway)
      ?_ fun k t a u es hi hguard hstep => ?_
    · refine ⟨Numbered.initial, rfl, ?_, ?_, fun _ => rfl, fun _ side => ?_⟩
      · simp [Gateway.child, initialized]
      · simp [Gateway.child, initialized]
      · cases side <;> rfl
    · rw [Trace.events_append, Trace.events_single]
      obtain ⟨hf, hadds, hstay⟩ := hc k t a hguard
      exact ⟨hi.1.step hf hstep, hi.2.step hnew hi.1 hadds hstay hstep⟩
  exact hboth.2

end Steps

end Reserved

section Runs

variable [VenueAdapter V] {P : Platform} {venues : ℕ → Option V} {engine : RoutingEngine}
  {md : MarketDataAggregator} {limits : RiskLimits} {symbolLimits : Symbol → Option RiskLimits}
  {limiter : RateLimiter} {h : Trace (Action V) Event} {s : System V}

def FollowsLive (g : Gateway V) (symbol : Symbol) : Prop :=
  (g.riskManager.getPosition symbol).openOrderCount = g.sumLive (isOf symbol) ∧
    (g.riskManager.getPosition symbol).pendingBuyQuantity = g.sumLive (reserved symbol .buy) ∧
    (g.riskManager.getPosition symbol).pendingSellQuantity = g.sumLive (reserved symbol .sell)

omit [VenueAdapter V] in
theorem Reserved.followsLive {q : Order → Prop} {g : Gateway V} (hb : Reserved q g)
    (hlive : ∀ id o, g.child id = some o → o.isTerminal = false) (symbol : Symbol) :
    FollowsLive g symbol := by
  refine ⟨?_, ?_, ?_⟩
  · rw [Gateway.sumLive_eq hlive, ← hb.counted]
    rfl
  · rw [Gateway.sumLive_eq hlive, ← hb.pending]
    rfl
  · rw [Gateway.sumLive_eq hlive, ← hb.pending]
    rfl

/-- The risk manager follows the live children, in every run in which no child ends. -/
theorem risk_follows_live_orders
    (hr : (machine P).Reach (fun k s a => FreshIds k s a ∧ TradesAddUp k s a ∧ NoChildEnds k s a)
      (initialized venues engine md limits symbolLimits limiter) h s) (symbol : Symbol) :
    FollowsLive s.gateway symbol := by
  have hb := Reserved.of_reach (q := fun o => o.isTerminal = false) (fun _ _ _ => rfl)
    (fun _ _ _ hc => hc) hr
  exact hb.followsLive (fun _ _ hc => hb.kept hc) symbol

/-- Whether it does is just whether a child has ended: nothing gives back what a child was counted for. -/
theorem followsLive_iff
    (hr : (machine P).Reach (fun k s a => FreshIds k s a ∧ TradesAddUp k s a)
      (initialized venues engine md limits symbolLimits limiter) h s) :
    (∀ symbol, FollowsLive s.gateway symbol) ↔
      ∀ id o, s.gateway.child id = some o → o.isTerminal = false := by
  have hb := Reserved.of_reach (q := fun _ => True) (fun _ _ _ => trivial)
    (fun _ _ _ hc => ⟨hc.1, hc.2, fun _ _ _ _ _ _ => trivial⟩) hr
  have hn : Numbered h.events s.gateway s.unused := Numbered.of_reach (fun _ _ _ hc => hc.1) hr
  refine ⟨fun hfollows id o hc => Bool.eq_false_iff.mpr fun hended => ?_, fun hlive => hb.followsLive hlive⟩
  have hcounted : s.gateway.sumChildren (isOf o.symbol) = s.gateway.sumLive (isOf o.symbol) :=
    (hb.counted o.symbol).symm.trans (hfollows o.symbol).1
  have hlost : s.gateway.sumLive (isOf o.symbol) < s.gateway.sumChildren (isOf o.symbol) := by
    refine Gateway.sumLive_lt (fun o' => ?_) (Gateway.child_bounded hn hc) hc hended ?_
    · unfold isOf
      split_ifs <;> omega
    · rw [isOf, if_pos rfl]
      exact Int.one_pos
  omega

end Runs

def filling (draws : Draws) : List (Action SimulatedExchange) :=
  sending buyTen ++ [.venue 1 (.processMatching fun _ => draws), .notify 1, .execLoop {}, .execLoop {},
    .execLoop {}]

theorem risk_follows_live_orders_half : ∃ h s, (machine .exact).Run calm h s ∧
    (s.gateway.riskManager.getPosition (.assign [65])).pendingBuyQuantity = 5 ∧
    FollowsLive s.gateway (.assign [65]) := by
  obtain ⟨h, s, hr, hpending⟩ := Machine.exists_reach (machine .exact)
    (fun k s a => FreshIds k s a ∧ TradesAddUp k s a ∧ NoChildEnds k s a) calm
    (fun _ s => (s.gateway.riskManager.getPosition (.assign [65])).pendingBuyQuantity = 5)
    (filling ⟨1 / 2, 1 / 2, 1 / 10, 1 / 2⟩) (by decide +kernel)
  exact ⟨h, s, hr.run, hpending, risk_follows_live_orders hr _⟩

/-- All reports are processed, the only child is filled, and the risk manager still counts it. -/
theorem filled_child_stays_counted : ∃ h s, (machine .exact).Run calm h s ∧
    s.gateway.reportQueue.items = [] ∧ s.outbox 1 = [] ∧
    (s.gateway.riskManager.getPosition (.assign [65])).openOrderCount = 1 ∧
    s.gateway.sumLive (isOf (.assign [65])) = 0 :=
  Machine.exists_run _ _ _ (filling ⟨1 / 2, 1 / 2, 1 / 2, 1 / 2⟩) (by decide +kernel)

end RiskAccounting

end Klett.Sor
