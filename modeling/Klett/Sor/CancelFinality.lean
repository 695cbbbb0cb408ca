import Klett.Sor.OrderIds

namespace Klett.Sor.CancelFinality

open Klett.Lib Klett.Sor.System

variable {V : Type} [VenueAdapter V] {P : Platform}

/-- A reroute of a parent whose cancel has been taken finds nothing to send: the risk check refuses it
or no slice comes out of routing. -/
def NoRerouteAfterCancel (P : Platform) : Machine.Guard (System V) (Action V) Event := fun k s a =>
  ∀ x ∈ s.reroute a, .cancelTaken x.parent.id ∈ k.events → x.slices P = []

instance (k : Trace (Action V) Event) (s : System V) (a : Action V) :
    Decidable (NoRerouteAfterCancel P k s a) :=
  inferInstanceAs (Decidable (∀ x ∈ s.reroute a, _ → x.slices P = []))

variable {venues : ℕ → Option V} {engine : RoutingEngine} {md : MarketDataAggregator}
  {limits : RiskLimits} {symbolLimits : Symbol → Option RiskLimits} {limiter : RateLimiter}
  {h : Trace (Action V) Event} {s : System V} {id : ℕ}

/-- A cancel that the order loop has taken is final, in every run in which the handler never brings the
cancelled parent back to routing. -/
theorem cancel_final
    (hr : (machine P).Reach (fun k s a => FreshIds k s a ∧ NoRerouteAfterCancel P k s a)
      (initialized venues engine md limits symbolLimits limiter) h s) :
    ∀ (pre : Trace (Action V) Event) x post, h = pre ++ x :: post → .cancelTaken id ∈ pre.events →
      ∀ e ∈ x.2, ¬e.Dispatches id := by
  have hnumbered {k : Trace (Action V) Event} {t : System V}
      (hr : (machine P).Reach (fun k s a => FreshIds k s a ∧ NoRerouteAfterCancel P k s a)
        (initialized venues engine md limits symbolLimits limiter) k t) :
      Numbered k.events t.gateway t.unused := Numbered.of_reach (fun _ _ _ hc => hc.1) hr
  have htracked {k : Trace (Action V) Event} {t : System V}
      (hr : (machine P).Reach (fun k s a => FreshIds k s a ∧ NoRerouteAfterCancel P k s a)
        (initialized venues engine md limits symbolLimits limiter) k t) :
      .cancelTaken id ∈ k.events → (t.gateway.execHandler.orders id).isSome := by
    induction hr with
    | refl => simp
    | @step k t a u es hk hc hstep ih =>
      intro hcancel
      rw [Trace.events_append, Trace.events_single] at hcancel
      apply (hnumbered hk).step_tracked _ hstep
      rcases List.mem_append.mp hcancel with hold | hnew
      · exact ih hold
      · exact cancelTaken_known hstep hnew
  refine hr.forall_entry (P := fun k x => .cancelTaken id ∈ k.events → ∀ e ∈ x.2, ¬e.Dispatches id)
    fun k t a u es hk hc hstep hcancel e he hdispatch => ?_
  obtain ⟨order, queue, hpop, rfl⟩ | ⟨x, hx, rfl, hslices⟩ := dispatches_cases hstep he hdispatch
  · -- an order of the queue is not tracked yet
    have hsome := htracked hk hcancel
    rw [((hnumbered hk).pop hpop).2.2.1] at hsome
    cases hsome
  · exact hslices (hc.2 x hx hcancel)

def canceling : List (Action SimulatedExchange) :=
  sending buyTen ++ [.cancelOrder { orderId := 1 }, .orderLoop {}, .orderLoop {},
    .venue 1 (.processMatching fun _ => ⟨1 / 2, 1 / 2, 1 / 2, 1 / 2⟩), .notify 1]

def handling : List (Action SimulatedExchange) := [.execLoop {}, .execLoop {}, .execLoop {}]

/-- With the kill switch on, the reroute is refused. -/
theorem cancel_final_killed : ∃ h s, (machine .exact).Run calm h s ∧
    .cancelTaken 1 ∈ h.events ∧
    ∀ (pre : Trace (Action SimulatedExchange) Event) x post, h = pre ++ x :: post →
      .cancelTaken 1 ∈ pre.events → ∀ e ∈ x.2, ¬e.Dispatches 1 := by
  obtain ⟨h, s, hr, hcancel⟩ := Machine.exists_reach (machine .exact)
    (fun k s a => FreshIds k s a ∧ NoRerouteAfterCancel .exact k s a) calm (fun h _ => .cancelTaken 1 ∈ h.events)
    (canceling ++ [.activateKillSwitch] ++ handling) (by decide +kernel)
  exact ⟨h, s, hr.run, hcancel, cancel_final hr⟩

/-- The venue confirms the cancel, and the handler sends the whole order out again. -/
theorem canceled_order_sent_again : ∃ h s, (machine .exact).Run calm h s ∧
    ∃ (pre : Trace (Action SimulatedExchange) Event) (x : _) (post : _), h = pre ++ x :: post ∧
      .cancelTaken 1 ∈ pre.events ∧ ∃ e ∈ x.2, e.Dispatches 1 := by
  obtain ⟨h, s, hr, hcancel, x, hx, hsent⟩ := Machine.exists_run (machine .exact) calm
    (fun h _ => .cancelTaken 1 ∈ Trace.events h.dropLast ∧
      ∃ x ∈ h.getLast?, ∃ e ∈ x.2, e.Dispatches 1) (canceling ++ handling) (by decide +kernel)
  exact ⟨h, s, hr, h.dropLast, x, [], (List.dropLast_append_getLast? x hx).symm, hcancel, hsent⟩

end Klett.Sor.CancelFinality
