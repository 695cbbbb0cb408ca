import Klett.Sor.OrderIds

namespace Klett.Sor.OneShot

open Klett.Lib Klett.Sor.System

variable {V : Type} [VenueAdapter V] {P : Platform}

def NoRerouteOfImmediate (P : Platform) : Machine.Guard (System V) (Action V) Event := fun _ s a =>
  ∀ x ∈ s.reroute a, x.parent.isImmediate → x.slices P = []

instance (k : Trace (Action V) Event) (s : System V) (a : Action V) :
    Decidable (NoRerouteOfImmediate P k s a) :=
  inferInstanceAs (Decidable (∀ x ∈ s.reroute a, _ → x.slices P = []))

variable {s s' : System V} {a : Action V} {es : List Event} {k h : Trace (Action V) Event} {o : Order}

theorem step_creates_none (hn : Numbered k.events s.gateway s.unused) (hc : NoRerouteOfImmediate P k s a)
    (ho : .submitted o ∈ k.events) (himm : o.isImmediate)
    (hcreated : ∃ c, .childCreated o.id c ∈ k.events)
    (hstep : (machine P).step s a = some (s', es)) (c : Order) : .childCreated o.id c ∉ es := by
  intro hmem
  obtain ⟨child, hchild⟩ := hcreated
  have hparent := hn.created.mpr ⟨child, hchild, rfl⟩
  obtain ⟨order, queue, hpop, hid⟩ | ⟨x, hx, hid, hslices⟩ := dispatches_cases (p := o.id) hstep hmem rfl
  · have htracked := hn.handler.parentTracked hparent
    rw [← hid, (hn.pop hpop).2.2.1] at htracked
    cases htracked
  · obtain ⟨hn', -, -, hfound⟩ := hn.system_reroute hx
    rw [hid] at hfound
    obtain ⟨htype, htif⟩ := hn'.terms ho hfound
    refine hslices (hc x hx ?_)
    unfold Order.isImmediate at himm ⊢
    rwa [htype, htif]

theorem submitted_childless (hn : Numbered k.events s.gateway s.unused) (hf : FreshIds k s a)
    (hstep : (machine P).step s a = some (s', es)) (ho : .submitted o ∈ es) (c : Order) :
    .childCreated o.id c ∉ k.events := by
  intro hmem
  have htracked := hn.handler.parentTracked (hn.created.mpr ⟨c, hmem, rfl⟩)
  rw [hn.step_submitted hf hstep ho] at htracked
  cases htracked

variable {venues : ℕ → Option V} {engine : RoutingEngine} {md : MarketDataAggregator}
  {limits : RiskLimits} {symbolLimits : Symbol → Option RiskLimits} {limiter : RateLimiter}

/-- All children of an immediate order are created in one step, in every run in which the handler never
brings such an order back to routing. -/
theorem immediate_one_round
    (hr : (machine P).Reach (fun k s a => FreshIds k s a ∧ NoRerouteOfImmediate P k s a)
      (initialized venues engine md limits symbolLimits limiter) h s)
    (ho : .submitted o ∈ h.events) (himm : o.isImmediate) :
    ∀ (pre : Trace (Action V) Event) x post, h = pre ++ x :: post → (∃ c, .childCreated o.id c ∈ x.2) →
      ∀ y ∈ post, ∀ c, .childCreated o.id c ∉ y.2 := by
  have hnumbered {k : Trace (Action V) Event} {t : System V}
      (hr : (machine P).Reach (fun k s a => FreshIds k s a ∧ NoRerouteOfImmediate P k s a)
        (initialized venues engine md limits symbolLimits limiter) k t) :
      Numbered k.events t.gateway t.unused := Numbered.of_reach (fun _ _ _ hc => hc.1) hr
  have hentry := hr.forall_entry
    (P := fun k x => (∃ c, .childCreated o.id c ∈ k.events) →
      .submitted o ∉ x.2 ∧ (.submitted o ∈ k.events → ∀ c, .childCreated o.id c ∉ x.2))
    fun k t a u es hk hc hstep hcreated =>
      ⟨fun hnew => submitted_childless (hnumbered hk) hc.1 hstep hnew _ hcreated.choose_spec,
        fun ho => step_creates_none (hnumbered hk) hc.2 ho himm hcreated hstep⟩
  rintro pre x post rfl ⟨c, hc⟩ y hy
  obtain ⟨mid, last, rfl⟩ := List.append_of_mem hy
  have hcreated (mid : Trace (Action V) Event) : ∃ c, .childCreated o.id c ∈ Trace.events (pre ++ x :: mid) :=
    ⟨c, Trace.mem_events.mpr ⟨x, List.mem_append_right _ List.mem_cons_self, hc⟩⟩
  refine (hentry (pre ++ x :: mid) y last (by simp) (hcreated mid)).2 ?_
  -- the order was submitted before it had a child
  by_contra hlate
  obtain ⟨z, hz, hsubmitted⟩ := Trace.mem_events.mp ho
  have hafter : z ∈ y :: last := by
    rw [show pre ++ x :: (mid ++ y :: last) = (pre ++ x :: mid) ++ (y :: last) by simp] at hz
    exact (List.mem_append.mp hz).resolve_left fun hz => hlate (Trace.mem_events.mpr ⟨z, hz, hsubmitted⟩)
  obtain ⟨before, after, hsplit⟩ := List.append_of_mem hafter
  exact (hentry (pre ++ x :: (mid ++ before)) z after (by rw [hsplit]; simp) (hcreated _)).1 hsubmitted

def immediateBuy : Order := { buyTen with tif := .ioc }

def missing : List (Action SimulatedExchange) :=
  sending immediateBuy ++ [.venue 1 (.processMatching fun _ => ⟨1 / 2, 1, 1 / 2, 1 / 2⟩), .notify 1,
    .execLoop {}, .execLoop {}]

theorem immediate_one_round_killed : ∃ h s, (machine .exact).Run calm h s ∧
    .submitted { immediateBuy with id := 1 } ∈ h.events ∧
    ∀ (pre : Trace (Action SimulatedExchange) Event) x post, h = pre ++ x :: post →
      (∃ c, .childCreated 1 c ∈ x.2) → ∀ y ∈ post, ∀ c, .childCreated 1 c ∉ y.2 := by
  obtain ⟨h, s, hr, ho⟩ := Machine.exists_reach (machine .exact)
    (fun k s a => FreshIds k s a ∧ NoRerouteOfImmediate .exact k s a) calm
    (fun h _ => .submitted { immediateBuy with id := 1 } ∈ h.events)
    (missing ++ [.activateKillSwitch, .execLoop {}]) (by decide +kernel)
  exact ⟨h, s, hr.run, ho, immediate_one_round hr ho (by decide)⟩

def wholeChild (id : ℕ) : Order :=
  Gateway.childOf { immediateBuy with id := 1 } ⟨1, 101 * priceScale, 10, .limit, .ioc⟩ id

/-- The order is immediate, and still a second child is created for it once the first is terminal. -/
theorem immediate_order_sent_twice : ∃ h s, (machine .exact).Run calm h s ∧
    .submitted { immediateBuy with id := 1 } ∈ h.events ∧ ({ immediateBuy with id := 1 }).isImmediate ∧
    ∃ (pre : Trace (Action SimulatedExchange) Event) (x : _) (post : _), h = pre ++ x :: post ∧
      (∃ c, .childCreated 1 c ∈ pre.events) ∧ ∃ c, .childCreated 1 c ∈ x.2 := by
  obtain ⟨h, s, hr, ho, hfirst, x, hx, hsecond⟩ := Machine.exists_run (machine .exact) calm
    (fun h _ => .submitted { immediateBuy with id := 1 } ∈ h.events ∧
      .childCreated 1 (wholeChild 2) ∈ Trace.events h.dropLast ∧
      ∃ x ∈ h.getLast?, .childCreated 1 (wholeChild 3) ∈ x.2)
    (missing ++ [.execLoop {}]) (by decide +kernel)
  exact ⟨h, s, hr, ho, by decide, h.dropLast, x, [], (List.dropLast_append_getLast? x hx).symm,
    ⟨_, hfirst⟩, _, hsecond⟩

end Klett.Sor.OneShot
