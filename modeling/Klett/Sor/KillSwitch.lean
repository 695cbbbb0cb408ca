import Klett.Sor.RiskAccounting

namespace Klett.Sor

open Klett.Lib

namespace Event

def Routes : Event → Prop
  | tracked _ | childCreated .. | childSent .. => True
  | _ => False

theorem IsReported.not_routes {e : Event} (h : e.IsReported) : ¬e.Routes := by
  cases e <;> first | exact h.elim | exact id

end Event

namespace PositionInfo

/-- What the position can become, with everything pending filled or given up, has not become more. -/
structure Narrows (pos pos' : PositionInfo) : Prop where
  bought : pos'.netQuantity + pos'.pendingBuyQuantity ≤ pos.netQuantity + pos.pendingBuyQuantity
  sold : pos.netQuantity - pos.pendingSellQuantity ≤ pos'.netQuantity - pos'.pendingSellQuantity
  pending (side : Side) : pos'.pending side ≤ pos.pending side

variable {pos pos' pos'' : PositionInfo}

theorem Narrows.refl : Narrows pos pos := ⟨le_rfl, le_rfl, fun _ => le_rfl⟩

theorem Narrows.trans (h : Narrows pos pos') (h' : Narrows pos' pos'') : Narrows pos pos'' :=
  ⟨h'.bought.trans h.bought, h.sold.trans h'.sold, fun side => (h'.pending side).trans (h.pending side)⟩

theorem Narrows.onFill {side : Side} {qty : ℤ} (price : ℤ) (hqty : 0 < qty) (hcovered : qty ≤ pos.pending side) :
    Narrows pos (pos.onFill side qty price) := by
  have hpending (other : Side) : (pos.onFill side qty price).pending other ≤ pos.pending other := by
    rw [onFill_pending]
    split_ifs with hside
    · rw [← hside]
      omega
    · exact le_rfl
  cases side with
  | buy =>
    have hcovered : qty ≤ pos.pendingBuyQuantity := hcovered
    refine ⟨?_, ?_, hpending⟩
    · simp only [PositionInfo.onFill, ↓reduceIte]
      omega
    · simp only [PositionInfo.onFill, ↓reduceIte]
      omega
  | sell =>
    have hcovered : qty ≤ pos.pendingSellQuantity := hcovered
    refine ⟨?_, ?_, hpending⟩
    · simp only [PositionInfo.onFill, reduceCtorEq, ↓reduceIte]
      omega
    · simp only [PositionInfo.onFill, reduceCtorEq, ↓reduceIte]
      omega

end PositionInfo

namespace Gateway

variable {V : Type} {g : Gateway V} {r : ExecutionReport}

theorem SameSettings.killSwitch {g g' : Gateway V} (h : g.SameSettings g') :
    g'.riskManager.killSwitch = g.riskManager.killSwitch := by
  obtain ⟨positions, hrisk⟩ := h
  rw [hrisk]

theorem passes_killed (h : g.riskManager.killSwitch = true) (order : Order) (t : Readings) :
    g.passes order t = false := by
  rw [passes, RiskManager.checkOrder, if_pos h]
  rfl

variable [VenueAdapter V] {P : Platform}

theorem processReport_killed (h : g.riskManager.killSwitch = true) (t : Readings) :
    (∃ limiter, (g.processReport P r t).1 = (g.applyReport r).limited limiter) ∧
      ∀ e ∈ (g.processReport P r t).2, ¬e.Routes := by
  have hkilled : (g.applyReport r).riskManager.killSwitch = true := applyReport_sameSettings.killSwitch.trans h
  have hsame : (g.applyReport r).limited (g.applyReport r).riskManager.rateLimiter = g.applyReport r := rfl
  obtain ⟨done, hdone, hcases⟩ := g.processReport_cases (P := P) r t
  have hquiet : ∀ e ∈ .processed r (g.applies r) :: done, ¬e.Routes := by
    intro e he
    obtain rfl | he := List.mem_cons.mp he
    · exact id
    · obtain ⟨o, rfl⟩ := hdone e he
      exact id
  obtain ⟨-, heq⟩ | ⟨parent, -, heq⟩ := hcases
  · rw [heq]
    exact ⟨⟨_, hsame.symm⟩, hquiet⟩
  · obtain ⟨limiter, hrefused⟩ := processSingleOrder_refused (P := P) (passes_killed hkilled (rerouteOrder parent) t)
    rw [heq, hrefused]
    exact ⟨⟨limiter, rfl⟩, by simpa using hquiet⟩

end Gateway

namespace KillSwitch

open Klett.Sor.System RiskAccounting

section Exposure

variable {V : Type} {es : List Event} {q : Order → Prop} {g : Gateway V} {unused : List ℕ} {r : ExecutionReport}

theorem covered (hb : Reserved q g) (hn : Numbered es g unused) {id : ℕ} {o : Order} (hc : g.child id = some o)
    (symbol : Symbol) (side : Side) : reserved symbol side o ≤ (g.riskManager.positions symbol).pending side := by
  rw [hb.pending]
  apply Gateway.le_sumChildren (Gateway.child_bounded hn hc) _ hc
  intro k o hk
  have hle := hb.within hk
  rw [reserved, Order.leavesQty]
  split_ifs <;> omega

theorem pending_nonneg (hb : Reserved q g) (symbol : Symbol) (side : Side) :
    0 ≤ (g.riskManager.positions symbol).pending side := by
  rw [hb.pending]
  apply Finset.sum_nonneg
  intro id _
  cases hc : g.child id with
  | none => exact le_rfl
  | some o =>
    have hle := hb.within hc
    rw [Option.elim_some, reserved, Order.leavesQty]
    split_ifs <;> omega

/-- A report trades what was pending for its child, and nothing else. -/
theorem applyReport_narrows (hb : Reserved q g) (hn : Numbered es g unused)
    (hadds : ∀ o o', g.execHandler.orders r.orderId = some o → o.onReport r = some o' → 0 < r.lastQuantity →
      g.execHandler.childToParent r.orderId ≠ none ∧ r.cumQuantity = o.filledQuantity + r.lastQuantity ∧
        r.cumQuantity ≤ o.quantity) (symbol : Symbol) :
    (g.riskManager.positions symbol).Narrows ((g.applyReport r).riskManager.positions symbol) := by
  obtain ⟨fills, happly⟩ := g.applyReport_frame (r := r)
  have hrisk : (g.applyReport r).riskManager = g.riskAfter r := by rw [happly]
  rw [hrisk]
  by_cases htrade : 0 < r.lastQuantity
  · obtain hignored | ⟨o, o', ho, hr, hroot⟩ | ⟨p, o, o', parent, hr⟩ := hn.handler.report_cases r
    · rw [Gateway.riskAfter_ignored hignored]
      exact .refl
    · exact absurd hroot (hadds o o' ho hr htrade).1
    · rw [Gateway.riskAfter_trade hn.handler hr hb.hooked htrade, RiskManager.onFill]
      by_cases hsymbol : symbol = o.symbol
      · rw [hsymbol, RiskManager.modifyPosition_self]
        apply PositionInfo.Narrows.onFill _ htrade
        obtain ⟨-, hcum, hwithin⟩ := hadds o o' hr.order hr.applied htrade
        have hleft := covered hb hn (Gateway.child_of_parent hr.parentOf hr.order) o.symbol o.side
        rw [reserved, if_pos ⟨rfl, rfl⟩, Order.leavesQty] at hleft
        omega
      · rw [RiskManager.modifyPosition_other _ hsymbol]
        exact .refl
  · rw [Gateway.riskAfter_of_no_trade htrade]
    exact .refl

end Exposure

variable {V : Type} [VenueAdapter V] {P : Platform} {s s' : System V} {a : Action V} {es : List Event}

def deactivates : Action V → Bool
  | .deactivateKillSwitch => true
  | _ => false

def StaysActive : Machine.Guard (System V) (Action V) Event := fun _ _ a => deactivates a = false

instance (k : Trace (Action V) Event) (s : System V) (a : Action V) : Decidable (StaysActive k s a) :=
  inferInstanceAs (Decidable (_ = _))

theorem step_killSwitch (hkill : s.gateway.riskManager.killSwitch = true) (ha : deactivates a = false)
    (h : (machine P).step s a = some (s', es)) : s'.gateway.riskManager.killSwitch = true := by
  by_cases hconfig : a.configuresRisk = true
  · cases a with
    | setGlobalLimits | setSymbolLimits =>
      cases h
      exact hkill
    | activateKillSwitch =>
      cases h
      rfl
    | deactivateKillSwitch => cases ha
    | _ => cases hconfig
  · obtain ⟨-, hsame⟩ | ⟨u, -, hsame, hafter⟩ := step_takenUp h (eq_false_of_ne_true hconfig)
    · exact hsame.killSwitch.trans hkill
    · have hkilled : u.gateway.riskManager.killSwitch = true := hsame.killSwitch.trans hkill
      obtain ⟨limiter, hrefused⟩ := Gateway.processSingleOrder_refused (P := P)
        (Gateway.passes_killed hkilled u.order u.readings)
      rw [hafter, hrefused]
      exact hkilled

/-- What is still in the queues is refused, and so is every reroute. Only reports change a position. -/
theorem step_killed (hkill : s.gateway.riskManager.killSwitch = true) (h : (machine P).step s a = some (s', es)) :
    (∀ e ∈ es, ¬e.Routes) ∧
      (s'.gateway.riskManager.positions = s.gateway.riskManager.positions ∨
        ∃ report ∈ s.nextReport a, ∃ queue,
          s'.gateway.riskManager.positions =
            ({ s.gateway with reportQueue := queue }.applyReport report).riskManager.positions) := by
  have hcalls {g g' : Gateway V} (hc : g.VenueCalls g') :
      g'.riskManager.positions = g.riskManager.positions := by
    obtain ⟨_, _, rfl⟩ := hc
    rfl
  cases step_effect h with
  | quiet hq => exact ⟨by simp, .inl hq.positions⟩
  | stopped hthread => exact ⟨by simp [Event.Routes], .inl rfl⟩
  | allocated => exact ⟨by simp, .inl rfl⟩
  | submitted hassign hpush => exact ⟨by simp [Event.Routes], .inl rfl⟩
  | @orderTaken order queue t hthread hpop =>
    obtain ⟨limiter, hrefused⟩ := Gateway.processSingleOrder_refused (P := P)
      (g := { s.gateway with orderQueue := queue }) (Gateway.passes_killed hkill order t)
    rw [hrefused]
    exact ⟨by simp, .inl rfl⟩
  | @cancelTaken request queue t =>
    obtain ⟨-, heq⟩ | ⟨-, es, heq, hc, hes⟩ := Gateway.processCancel_cases
      (g := { s.gateway with cancelQueue := queue }) request
    · rw [heq]
      exact ⟨by simp, .inl rfl⟩
    · have hsame := hcalls hc
      refine ⟨?_, .inl hsame⟩
      rw [heq]
      intro e he
      obtain rfl | he := List.mem_cons.mp he
      · exact id
      · exact (hes e he).not_routes
  | @reportTaken report queue t hthread hpop =>
    obtain ⟨⟨limiter, heq⟩, hquiet⟩ := Gateway.processReport_killed (P := P) (r := report)
      (g := { s.gateway with reportQueue := queue }) hkill t
    refine ⟨hquiet, .inr ⟨report, nextReport_of_pop hthread hpop, queue, ?_⟩⟩
    rw [heq]
    rfl
  | venueRan hfound hrun => exact ⟨by simp, .inl rfl⟩
  | notified houtbox =>
    obtain ⟨hc, hes⟩ := s.gateway.onExecutionReport_calls _
    exact ⟨fun e he => (hes e he).not_routes, .inl (hcalls hc)⟩

variable {venues : ℕ → Option V} {engine : RoutingEngine} {md : MarketDataAggregator} {limits : RiskLimits}
  {symbolLimits : Symbol → Option RiskLimits} {limiter : RateLimiter} {h k : Trace (Action V) Event}

/-- What holds after the run `k` from a state `s` in which the kill switch was on, `h` being the run to `s`. -/
structure Killed (h : Trace (Action V) Event) (s : System V) (k : Trace (Action V) Event) (t : System V) : Prop where
  numbered : Numbered (h ++ k).events t.gateway t.unused
  reserved : Reserved (fun _ => True) t.gateway
  killSwitch : t.gateway.riskManager.killSwitch = true
  narrows (symbol : Symbol) : (s.gateway.riskManager.positions symbol).Narrows (t.gateway.riskManager.positions symbol)

namespace Killed

variable {t u : System V}

theorem step_narrows (hi : Killed h s k t) (hadds : TradesAddUp k t a) (hstep : (machine P).step t a = some (u, es))
    (symbol : Symbol) :
    (t.gateway.riskManager.positions symbol).Narrows (u.gateway.riskManager.positions symbol) := by
  obtain ⟨-, hsame | ⟨report, hreport, queue, happlied⟩⟩ := step_killed hi.killSwitch hstep
  · rw [hsame]
    exact .refl
  · have hreserved : Reserved (fun _ => True) { t.gateway with reportQueue := queue } :=
      hi.reserved.frame rfl rfl rfl
    have hnumbered : Numbered (h ++ k).events { t.gateway with reportQueue := queue } t.unused :=
      hi.numbered.quiet rfl rfl le_rfl
    rw [happlied]
    apply applyReport_narrows hreserved hnumbered
    intro o o' ho happlies
    apply hadds report hreport o ho
    rw [happlies]
    rfl

theorem step (hi : Killed h s k t) (hfresh : FreshIds k t a) (hadds : TradesAddUp k t a) (hactive : StaysActive k t a)
    (hstep : (machine P).step t a = some (u, es)) : Killed h s (k ++ [(a, es)]) u where
  numbered := by
    rw [← List.append_assoc, Trace.events_append, Trace.events_single]
    exact hi.numbered.step hfresh hstep
  reserved := by
    have hstay : ChildrenStay (fun _ => True) (h ++ k) t a := fun _ _ _ _ _ _ => trivial
    exact hi.reserved.step (k := h ++ k) (fun _ _ _ => trivial) hi.numbered hadds hstay hstep
  killSwitch := step_killSwitch hi.killSwitch hactive hstep
  narrows := fun symbol => (hi.narrows symbol).trans (hi.step_narrows hadds hstep symbol)

theorem run (hi : Killed h s [] s)
    (hk : (machine P).Reach (fun k s a => FreshIds k s a ∧ TradesAddUp k s a ∧ StaysActive k s a) s k s') :
    Killed h s k s' := by
  induction hk with
  | refl => exact hi
  | step _ hc hstep ih => exact ih.step hc.1 hc.2.1 hc.2.2 hstep

theorem position (hi : Killed h s k t) (symbol : Symbol) :
    let before := s.gateway.riskManager.positions symbol
    let after := t.gateway.riskManager.positions symbol
    before.netQuantity - before.pendingSellQuantity ≤ after.netQuantity ∧
      after.netQuantity ≤ before.netQuantity + before.pendingBuyQuantity := by
  have hbuy : 0 ≤ (t.gateway.riskManager.positions symbol).pendingBuyQuantity := pending_nonneg hi.reserved symbol .buy
  have hsell : 0 ≤ (t.gateway.riskManager.positions symbol).pendingSellQuantity :=
    pending_nonneg hi.reserved symbol .sell
  have hbought := (hi.narrows symbol).bought
  have hsold := (hi.narrows symbol).sold
  constructor
  · omega
  · omega

end Killed

theorem run_quiet (hkill : s.gateway.riskManager.killSwitch = true) (hk : (machine P).Reach StaysActive s k s') :
    s'.gateway.riskManager.killSwitch = true ∧ ∀ e ∈ k.events, ¬e.Routes := by
  induction hk with
  | refl => exact ⟨hkill, by simp⟩
  | @step k t a u es _ hc hstep ih =>
    obtain ⟨hkilled, hquiet⟩ := ih
    refine ⟨step_killSwitch hkilled hc hstep, ?_⟩
    rw [Trace.events_append, Trace.events_single]
    intro e he
    obtain he | he := List.mem_append.mp he
    · exact hquiet e he
    · exact (step_killed hkilled hstep).1 e he

/-- From the kill switch on nothing is routed, whatever is queued and whatever the venues report. Where order ids are
unused and trades add up, a position stays between what the pending orders could make of it. -/
theorem nothing_routed (hkill : s.gateway.riskManager.killSwitch = true)
    (hk : (machine P).Reach StaysActive s k s') :
    (∀ e ∈ k.events, ¬e.Routes) ∧
      ((machine P).Reach (fun k s a => FreshIds k s a ∧ TradesAddUp k s a)
          (initialized venues engine md limits symbolLimits limiter) h s →
        (machine P).Reach (fun k s a => FreshIds k s a ∧ TradesAddUp k s a ∧ StaysActive k s a) s k s' → ∀ symbol,
          let before := s.gateway.riskManager.getPosition symbol
          let after := s'.gateway.riskManager.getPosition symbol
          before.netQuantity - before.pendingSellQuantity ≤ after.netQuantity ∧
            after.netQuantity ≤ before.netQuantity + before.pendingBuyQuantity ∧
            after.pendingBuyQuantity ≤ before.pendingBuyQuantity ∧
            after.pendingSellQuantity ≤ before.pendingSellQuantity) := by
  refine ⟨(run_quiet hkill hk).2, fun hr hk symbol => ?_⟩
  have hreserved : Reserved (fun _ => True) s.gateway := Reserved.of_reach (fun _ _ _ => trivial)
    (fun _ _ _ hc => ⟨hc.1, hc.2, fun _ _ _ _ _ _ => trivial⟩) hr
  have hnumbered : Numbered (h ++ []).events s.gateway s.unused := by
    rw [List.append_nil]
    exact Numbered.of_reach (fun _ _ _ hc => hc.1) hr
  have hstart : Killed h s [] s := ⟨hnumbered, hreserved, hkill, fun _ => .refl⟩
  have hkilled : Killed h s k s' := hstart.run hk
  obtain ⟨hlow, hhigh⟩ := hkilled.position symbol
  exact ⟨hlow, hhigh, (hkilled.narrows symbol).pending .buy, (hkilled.narrows symbol).pending .sell⟩

/-- The child that is out is filled, the order in the queue is refused. -/
def halted : List (Action SimulatedExchange) :=
  [.submitOrder buyTen, .orderLoop {}, .venue 1 (.processMatching fun _ => ⟨1 / 2, 1 / 2, 1 / 2, 1 / 2⟩), .notify 1,
    .execLoop {}, .execLoop {}, .execLoop {}]

theorem nothing_routed_filling : ∃ (s t : System SimulatedExchange) (k : Trace (Action SimulatedExchange) Event),
    (machine .exact).Run s k t ∧ (t.gateway.riskManager.getPosition (.assign [65])).netQuantity = 10 ∧
      (∀ e ∈ k.events, ¬e.Routes) ∧
      (t.gateway.riskManager.getPosition (.assign [65])).netQuantity ≤
        (s.gateway.riskManager.getPosition (.assign [65])).netQuantity +
          (s.gateway.riskManager.getPosition (.assign [65])).pendingBuyQuantity := by
  obtain ⟨h, s, hr, hkill, hmore⟩ := Machine.exists_reach (machine .exact)
    (fun k s a => FreshIds k s a ∧ TradesAddUp k s a) calm
    (fun _ s => s.gateway.riskManager.killSwitch = true ∧
      ((machine .exact).guardedExec (fun k s a => FreshIds k s a ∧ TradesAddUp k s a ∧ StaysActive k s a) [] s
        halted).any (fun x => (x.2.gateway.riskManager.getPosition (.assign [65])).netQuantity = 10) = true)
    (sending buyTen ++ [.activateKillSwitch]) (by decide +kernel)
  obtain ⟨⟨k, t⟩, hexec, hfilled⟩ := (Option.any_eq_true _ _).mp hmore
  have hk := Machine.Reach.refl.guardedExec hexec
  have hactive : (machine .exact).Reach StaysActive s k t := hk.mono fun _ _ _ hc => hc.2.2
  obtain ⟨hquiet, hpositions⟩ := nothing_routed hkill hactive
  exact ⟨s, t, k, hk.run, of_decide_eq_true hfilled, hquiet, (hpositions hr hk (.assign [65])).2.1⟩

end KillSwitch

end Klett.Sor
