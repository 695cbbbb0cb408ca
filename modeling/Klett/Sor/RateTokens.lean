import Klett.Lib.Machine
import Klett.Sor.GatewaySteps

namespace Klett.Sor

open Klett.Lib

namespace RateLimiter

variable (r : RateLimiter) (sec : ℤ)

def used : ℤ := if r.windowStart < sec then 0 else r.count

variable {r sec}

variable (r sec) in
theorem tryAcquire_granted (hmax : 1 ≤ r.maxPerSecond) :
    (r.tryAcquire sec).2 = true ↔ r.used sec < r.maxPerSecond := by
  unfold tryAcquire used
  split_ifs with hlater hfull
  · simp
    omega
  · simp
    omega
  · simp
    omega

theorem tryAcquire_used :
    (r.tryAcquire sec).1.used sec = r.used sec + if (r.tryAcquire sec).2 then 1 else 0 := by
  unfold tryAcquire
  by_cases hlater : sec > r.windowStart
  · simp [used, hlater]
  · by_cases hfull : r.count ≥ r.maxPerSecond
    · simp [hlater, hfull]
    · simp [used, hlater, hfull]

theorem tryAcquire_window (hwindow : r.windowStart ≤ sec) : (r.tryAcquire sec).1.windowStart ≤ sec := by
  unfold tryAcquire
  split_ifs <;> simp [hwindow]

@[simp] theorem tryAcquire_maxPerSecond : (r.tryAcquire sec).1.maxPerSecond = r.maxPerSecond := by
  unfold tryAcquire
  split_ifs <;> rfl

def acquireTwice (r : RateLimiter) (sec : ℤ) : RateLimiter × Bool :=
  if (r.tryAcquire sec).2 then (r.tryAcquire sec).1.tryAcquire sec else r.tryAcquire sec

variable (r sec) in
theorem tryAcquire_granted_again (hmax : 1 ≤ r.maxPerSecond) :
    ((r.tryAcquire sec).1.tryAcquire sec).2 = true ↔
      r.used sec + (if (r.tryAcquire sec).2 then 1 else 0) < r.maxPerSecond := by
  have hsame : 1 ≤ (r.tryAcquire sec).1.maxPerSecond := by
    rw [tryAcquire_maxPerSecond]
    exact hmax
  rw [tryAcquire_granted _ sec hsame, tryAcquire_used, tryAcquire_maxPerSecond]

variable (r sec) in
theorem acquireTwice_granted (hmax : 1 ≤ r.maxPerSecond) :
    (r.acquireTwice sec).2 = true ↔ r.used sec + 2 ≤ r.maxPerSecond := by
  have hfirst := tryAcquire_granted r sec hmax
  have hsecond := tryAcquire_granted_again r sec hmax
  unfold acquireTwice
  split_ifs with hgranted
  · rw [hsecond, if_pos hgranted]
    omega
  · rw [hfirst] at hgranted ⊢
    omega

theorem acquireTwice_used (hmax : 1 ≤ r.maxPerSecond) (hused : r.used sec ≤ r.maxPerSecond) :
    (r.acquireTwice sec).1.used sec = min r.maxPerSecond (r.used sec + 2) := by
  have hfirst := tryAcquire_granted r sec hmax
  have hsecond := tryAcquire_granted_again r sec hmax
  unfold acquireTwice
  split_ifs with hgranted
  · rw [tryAcquire_used, tryAcquire_used, if_pos hgranted]
    rw [if_pos hgranted] at hsecond
    rw [hfirst] at hgranted
    split_ifs with hagain
    · rw [hsecond] at hagain
      omega
    · rw [hsecond] at hagain
      omega
  · rw [tryAcquire_used, if_neg hgranted]
    rw [hfirst] at hgranted
    omega

theorem acquireTwice_frame (hwindow : r.windowStart ≤ sec) :
    (r.acquireTwice sec).1.maxPerSecond = r.maxPerSecond ∧ (r.acquireTwice sec).1.windowStart ≤ sec := by
  unfold acquireTwice
  split_ifs
  · exact ⟨by simp, tryAcquire_window (tryAcquire_window hwindow)⟩
  · exact ⟨by simp, tryAcquire_window hwindow⟩

end RateLimiter

namespace RiskManager

variable {rm : RiskManager} {order : Order} {sec : ℤ}

def withLimiter (rm : RiskManager) (limiter : RateLimiter) : RiskManager := { rm with rateLimiter := limiter }

theorem checkOrder_rate (hkill : rm.killSwitch = false) (hpos : rm.checkPosition order = .passed)
    (hrate : 0 < rm.globalLimits.maxOrdersPerSecond) (limiter : RateLimiter) :
    (rm.withLimiter limiter).checkOrder order sec = (rm.withLimiter (limiter.tryAcquire sec).1,
      if (limiter.tryAcquire sec).2 then .passed else .failedRateLimit) := by
  have hsame : (rm.withLimiter limiter).checkPosition order = rm.checkPosition order := rfl
  rw [hpos] at hsame
  unfold checkOrder
  rw [hsame]
  simp only [withLimiter, hkill, hrate]
  obtain ⟨after, granted⟩ := limiter.tryAcquire sec
  cases granted <;> rfl

end RiskManager

namespace Gateway

variable {V : Type} (g : Gateway V)

def rate : RiskLimits × RateLimiter := (g.riskManager.globalLimits, g.riskManager.rateLimiter)

/-- What the routing engine asks of an order before its risk check. -/
def Routable (order : Order) : Prop :=
  order.symbol.empty = false ∧ 0 < order.quantity ∧ ¬(order.type = .limit ∧ order.price ≤ 0)

instance (order : Order) : Decidable (Routable order) := inferInstanceAs (Decidable (_ ∧ _ ∧ _))

/-- `process_single_order` rejects the order for the rate: at its own check, or, when that one has
passed, at the check of the routing engine. -/
def RejectsForRate (order : Order) (t : Readings) : Prop :=
  let checked := g.riskManager.checkOrder (order.apply .submit) t.riskSecond
  checked.2 = .failedRateLimit ∨ checked.2 = .passed ∧ Routable (order.apply .submit) ∧
    (checked.1.checkOrder (order.apply .submit) t.routeSecond).2 = .failedRateLimit

instance (order : Order) (t : Readings) : Decidable (g.RejectsForRate order t) :=
  instDecidableOr

structure OtherwiseAcceptable (order : Order) : Prop where
  killSwitch : g.riskManager.killSwitch = false
  limits : g.riskManager.checkPosition (order.apply .submit) = .passed
  routable : Routable (order.apply .submit)

instance (order : Order) : Decidable (g.OtherwiseAcceptable order) :=
  decidable_of_iff (_ ∧ _ ∧ _) ⟨fun ⟨hk, hl, hr⟩ => ⟨hk, hl, hr⟩, fun ⟨hk, hl, hr⟩ => ⟨hk, hl, hr⟩⟩

variable {g} {order : Order} {t : Readings} {sec : ℤ}

section Rejected

variable {P : Platform}

theorem rejectsForRate_dispatches_nothing (h : g.RejectsForRate order t) : g.slicesFor P order t = [] := by
  unfold slicesFor passes
  rcases h with hfirst | ⟨-, -, hsecond⟩
  · rw [hfirst]
    rfl
  · split
    · have hrefused : (g.routingEngine.routeOrder P _ (order.apply .submit)
          (g.routeInput P (order.apply .submit) t)).2.2 = {} :=
        RoutingEngine.routeOrder_refused (hsecond.trans_ne (by simp))
      exact congrArg RoutingDecision.slices hrefused
    · rfl

end Rejected

theorem SameSettings.rate {g g' : Gateway V} (h : g.SameSettings g') : g'.rate = g.rate := by
  obtain ⟨positions, hrisk⟩ := h
  rw [Gateway.rate, hrisk]
  rfl

theorem rateLimiter_of_rate {g g' : Gateway V} (h : g'.rate = g.rate) :
    g'.riskManager.rateLimiter = g.riskManager.rateLimiter := congrArg Prod.snd h

structure Allows (n sec : ℤ) (g : Gateway V) : Prop where
  positive : 1 ≤ n
  limit : g.riskManager.globalLimits.maxOrdersPerSecond = n
  max : g.riskManager.rateLimiter.maxPerSecond = n
  window : g.riskManager.rateLimiter.windowStart ≤ sec

variable {n : ℤ}

theorem Allows.congr {g g' : Gateway V} (h : Allows n sec g) (hrate : g'.rate = g.rate) :
    Allows n sec g' := by
  simp only [Gateway.rate, Prod.mk.injEq] at hrate
  obtain ⟨hlimits, hlimiter⟩ := hrate
  exact ⟨h.positive, hlimits ▸ h.limit, hlimiter ▸ h.max, hlimiter ▸ h.window⟩

theorem dispatchSlices_rate [VenueAdapter V] (order : Order) (slices : List Slice) :
    (dispatchSlices order g slices).1.rate = g.rate := by
  refine dispatchSlices_invariant (fun g' _ => g'.rate = g.rate) (fun _ => True) order slices []
    (fun g' es slice _ _ hi => ?_) rfl (by simp)
  obtain ⟨es', -, -, hcalls⟩ := g'.dispatchSlice_eq order slice
  exact hcalls.sameSettings.rate.trans hi

section Processed

variable (h : Allows n sec g) (ha : g.OtherwiseAcceptable order) (hrisk : t.riskSecond = sec)
  (hroute : t.routeSecond = sec)
include h ha hrisk hroute

omit hrisk hroute in
theorem OtherwiseAcceptable.checkOrder_eq (limiter : RateLimiter) :
    (g.riskManager.withLimiter limiter).checkOrder (order.apply .submit) sec =
      (g.riskManager.withLimiter (limiter.tryAcquire sec).1,
        if (limiter.tryAcquire sec).2 then .passed else .failedRateLimit) := by
  apply RiskManager.checkOrder_rate ha.killSwitch ha.limits
  rw [h.limit]
  exact h.positive

theorem OtherwiseAcceptable.rejectsForRate_iff :
    g.RejectsForRate order t ↔ n < g.riskManager.rateLimiter.used sec + 2 := by
  have hgranted := RateLimiter.acquireTwice_granted g.riskManager.rateLimiter sec
    (h.max ▸ h.positive)
  rw [h.max] at hgranted
  rw [← not_le, ← hgranted]
  have hfirst : g.riskManager.checkOrder _ sec = _ := ha.checkOrder_eq h g.riskManager.rateLimiter
  have hsecond := ha.checkOrder_eq h (g.riskManager.rateLimiter.tryAcquire sec).1
  unfold RejectsForRate RateLimiter.acquireTwice
  rw [hrisk, hroute, hfirst]
  simp only [hsecond]
  cases hone : (g.riskManager.rateLimiter.tryAcquire sec).2 with
  | false => simp [hone]
  | true =>
    cases htwo : ((g.riskManager.rateLimiter.tryAcquire sec).1.tryAcquire sec).2 with
    | false => simp [htwo, ha.routable]
    | true => simp [htwo]

/-- An order takes a token at each of its two checks. -/
theorem OtherwiseAcceptable.processed_rate [VenueAdapter V] {P : Platform} :
    (g.processSingleOrder P order t).1.rate =
      (g.riskManager.globalLimits, (g.riskManager.rateLimiter.acquireTwice sec).1) := by
  have hfirst : g.riskManager.checkOrder _ sec = _ := ha.checkOrder_eq h g.riskManager.rateLimiter
  have hsecond := ha.checkOrder_eq h (g.riskManager.rateLimiter.tryAcquire sec).1
  unfold processSingleOrder RateLimiter.acquireTwice
  simp only [hrisk, hfirst]
  cases hone : (g.riskManager.rateLimiter.tryAcquire sec).2 with
  | false => rfl
  | true =>
    have hrouted : (g.routingEngine.routeOrder P
        (g.riskManager.withLimiter (g.riskManager.rateLimiter.tryAcquire sec).1) (order.apply .submit)
        (g.routeInput P (order.apply .submit) t)).2.1 = _ :=
      RoutingEngine.routeOrder_checked ha.routable.1 ha.routable.2.1 ha.routable.2.2
    simp only [routeInput, hroute, hsecond] at hrouted
    simp only [↓reduceIte, ne_eq, not_true_eq_false, routeTracked_eq, dispatchSlices_rate]
    simp only [rate, routeOrder, routeInput, hroute, hrouted]
    rfl

theorem OtherwiseAcceptable.processed [VenueAdapter V] {P : Platform}
    (hused : g.riskManager.rateLimiter.used sec ≤ n) :
    Allows n sec (g.processSingleOrder P order t).1 ∧
      (g.processSingleOrder P order t).1.riskManager.rateLimiter.used sec =
        min n (g.riskManager.rateLimiter.used sec + 2) := by
  have hrate := ha.processed_rate h hrisk hroute (P := P)
  simp only [rate, Prod.mk.injEq] at hrate
  obtain ⟨hlimits, hlimiter⟩ := hrate
  obtain ⟨hmax, hwindow⟩ := RateLimiter.acquireTwice_frame h.window
  rw [hlimiter, RateLimiter.acquireTwice_used (h.max ▸ h.positive) (h.max ▸ hused), h.max]
  refine ⟨⟨h.positive, ?_, ?_, ?_⟩, rfl⟩
  · rw [hlimits, h.limit]
  · rw [hlimiter, hmax, h.max]
  · rw [hlimiter]
    exact hwindow

end Processed

end Gateway

def Action.setsGlobalLimits {V : Type} [VenueAdapter V] : Action V → Bool
  | .setGlobalLimits .. => true
  | _ => false

namespace System

variable {V : Type} [VenueAdapter V] {P : Platform} {s s' : System V} {es : List Event} {a : Action V}

theorem step_rate (h : (machine P).step s a = some (s', es)) (hset : a.setsGlobalLimits = false) :
    s.takenUp a = none ∧ s'.gateway.rate = s.gateway.rate ∨
      ∃ u, s.takenUp a = some u ∧ u.gateway.rate = s.gateway.rate ∧
        s'.gateway.rate = (u.gateway.processSingleOrder P u.order u.readings).1.rate := by
  by_cases ha : a.configuresRisk = true
  · cases a with
    | setGlobalLimits => cases hset
    | setSymbolLimits | activateKillSwitch | deactivateKillSwitch =>
      cases h
      exact .inl ⟨rfl, rfl⟩
    | _ => cases ha
  · obtain ⟨htaken, hsame⟩ | ⟨u, htaken, hsame, hafter⟩ := step_takenUp h (eq_false_of_ne_true ha)
    · exact .inl ⟨htaken, hsame.rate⟩
    · refine .inr ⟨u, htaken, hsame.rate, ?_⟩
      rw [Gateway.rate, hafter]
      rfl

end System

end Klett.Sor

namespace Klett.Sor.RateTokens

open Klett.Lib Klett.Sor.System

variable {V : Type} [VenueAdapter V]

structure Attempt where
  order : Order
  isNew : Bool
  rejected : Bool

def record (x : List Attempt) (s : System V) (a : Action V) (_ : List Event) : List Attempt :=
  x ++ (s.takenUp a).toList.map fun u =>
    ⟨u.order, !a.isExecLoop, u.gateway.RejectsForRate u.order u.readings⟩

/-- A step inside the window of one second: the limits stay, and each order that is processed is
acceptable but for the rate. -/
def InWindow (sec : ℤ) (s : System V) (a : Action V) : Prop :=
  a.setsGlobalLimits = false ∧ ∀ u ∈ s.takenUp a, u.gateway.OtherwiseAcceptable u.order ∧
    u.readings.riskSecond = sec ∧ u.readings.routeSecond = sec

instance (sec : ℤ) (s : System V) (a : Action V) : Decidable (InWindow sec s a) := instDecidableAnd

structure Fresh (n sec : ℤ) (s : System V) : Prop where
  allows : s.gateway.Allows n sec
  unused : s.gateway.riskManager.rateLimiter.used sec = 0

/-- Each order so far has taken two tokens while there were any, and was rejected without them. -/
structure Counted (n sec : ℤ) (s : System V) (x : List Attempt) : Prop where
  allows : s.gateway.Allows n sec
  used : s.gateway.riskManager.rateLimiter.used sec = min n (2 * x.length)
  rejected : ∀ (i : ℕ) y, x[i]? = some y → (y.rejected = true ↔ n < 2 * (i + 1))

variable {P : Platform} {s s' : System V} {x : List Attempt} {a : Action V} {es : List Event} {n sec : ℤ}

theorem Counted.step (h : Counted n sec s x) (hw : InWindow sec s a)
    (hstep : (machine P).step s a = some (s', es)) : Counted n sec s' (record x s a es) := by
  obtain ⟨htaken, hrate⟩ | ⟨u, htaken, hbefore, hafter⟩ := step_rate hstep hw.1
  · rw [record, htaken, Option.toList_none, List.map_nil, List.append_nil]
    refine ⟨h.allows.congr hrate, ?_, h.rejected⟩
    rw [Gateway.rateLimiter_of_rate hrate, h.used]
  · obtain ⟨ha, hrisk, hroute⟩ := hw.2 u htaken
    have hallows := h.allows.congr hbefore
    have hused : u.gateway.riskManager.rateLimiter.used sec = min n (2 * x.length) := by
      rw [Gateway.rateLimiter_of_rate hbefore, h.used]
    obtain ⟨hnext, hgone⟩ := ha.processed hallows hrisk hroute (P := P) (hused.le.trans (min_le_left _ _))
    rw [record, htaken, Option.toList_some, List.map_singleton]
    refine ⟨hnext.congr hafter, ?_, fun i y hy => ?_⟩
    · rw [Gateway.rateLimiter_of_rate hafter, hgone, hused, List.length_append, List.length_singleton]
      push_cast
      omega
    · rw [List.getElem?_append] at hy
      split_ifs at hy with hi
      · exact h.rejected i y hy
      · obtain ⟨hlast, rfl⟩ := List.getElem?_eq_some_iff.mp hy
        have hlen : i = x.length := by
          rw [List.length_singleton] at hlast
          omega
        subst hlen
        simp only [Nat.sub_self, List.getElem_cons_zero, decide_eq_true_eq]
        rw [ha.rejectsForRate_iff hallows hrisk hroute, hused]
        have hpos := hallows.positive
        omega

variable {s₀ : System V} {h : Trace (Action V) Event}

theorem Fresh.counted (hfresh : Fresh n sec s₀)
    (hr : ((machine P).recording record).Reach (fun _ y a => InWindow sec y.1 a) (s₀, []) h (s, x)) :
    Counted n sec s x := by
  refine hr.invariant (I := fun _ y => Counted n sec y.1 y.2) ?_ fun k y a z es hi hw hstep => ?_
  · refine ⟨hfresh.allows, ?_, by simp⟩
    have hpos := hfresh.allows.positive
    rw [hfresh.unused]
    simp
    omega
  · obtain ⟨hmain, hrecord⟩ := Machine.recording_step.mp hstep
    rw [hrecord]
    exact hi.step hw hmain

/-- No new order of the window is rejected for the rate exactly when the tokens give two to every order
that is processed up to the last new one. -/
theorem none_rejected_iff (hfresh : Fresh n sec s₀)
    (hr : ((machine P).recording record).Reach (fun _ y a => InWindow sec y.1 a) (s₀, []) h (s, x)) :
    (∀ y ∈ x, y.isNew = true → y.rejected = false) ↔
      ∀ (i : ℕ) y, x[i]? = some y → y.isNew = true → 2 * ((i : ℤ) + 1) ≤ n := by
  have hcounted := hfresh.counted hr
  constructor
  · intro hnone i y hy hnew
    by_contra hlate
    have hrejected := (hcounted.rejected i y hy).mpr (not_le.mp hlate)
    rw [hnone y (List.mem_of_getElem? hy) hnew] at hrejected
    cases hrejected
  · intro hroom y hy hnew
    obtain ⟨i, hi⟩ := List.mem_iff_getElem?.mp hy
    have hle := hroom i y hi hnew
    rw [← Bool.not_eq_true, hcounted.rejected i y hi]
    omega

/-- Everything that is processed in the window goes through when it is at most half of what is allowed. -/
theorem batch_accepted_iff (hfresh : Fresh n sec s₀)
    (hr : ((machine P).recording record).Reach (fun _ y a => InWindow sec y.1 a) (s₀, []) h (s, x)) :
    (∀ y ∈ x, y.rejected = false) ↔ 2 * (x.length : ℤ) ≤ n := by
  have hcounted := hfresh.counted hr
  have hpos := hfresh.allows.positive
  constructor
  · intro hnone
    by_contra hlate
    have hlen : x.length - 1 < x.length := by omega
    have hlast := hcounted.rejected (x.length - 1) _ (List.getElem?_eq_getElem hlen)
    rw [hnone _ (List.getElem_mem hlen)] at hlast
    have hle := mt hlast.mpr Bool.false_ne_true
    omega
  · intro hroom y hy
    obtain ⟨i, hi⟩ := List.mem_iff_getElem?.mp hy
    obtain ⟨hlt, -⟩ := List.getElem?_eq_some_iff.mp hi
    rw [← Bool.not_eq_true, hcounted.rejected i y hi]
    omega

def allowing (n : ℤ) : System SimulatedExchange :=
  calm.setGateway { calm.gateway with
    riskManager := calm.gateway.riskManager.setGlobalLimits { maxOrdersPerSecond := n } 0 }

theorem none_rejected_iff_one_of_two : ∃ h s x,
    ((machine .exact).recording record).Reach (fun _ y a => InWindow 0 y.1 a) (allowing 2, []) h (s, x) ∧
      x.map Attempt.isNew = [true] ∧
      ((∀ y ∈ x, y.isNew = true → y.rejected = false) ↔
        ∀ (i : ℕ) y, x[i]? = some y → y.isNew = true → 2 * ((i : ℤ) + 1) ≤ 2) := by
  obtain ⟨h, ⟨s, x⟩, hr, hone⟩ := Machine.exists_reach ((machine .exact).recording record)
    (fun _ y a => InWindow 0 y.1 a) (allowing 2, []) (fun _ y => y.2.map Attempt.isNew = [true])
    (sending buyTen) (by decide +kernel)
  exact ⟨h, s, x, hr, hone, none_rejected_iff ⟨⟨by decide, rfl, rfl, by decide⟩, by decide⟩ hr⟩

/-- One order a second is allowed, and one order comes: the gateway's check takes the token and the
routing engine's check finds none. -/
theorem only_order_rejected : ∃ h x,
    ((machine .exact).recording record).Reach (fun _ y a => InWindow 0 y.1 a) (allowing 1, []) h x ∧
      x.2.map (fun y => (y.isNew, y.rejected)) = [(true, true)] ∧ ∀ e ∈ h.events, ¬e.Dispatches 1 :=
  Machine.exists_reach _ _ _ _ (sending buyTen) (by decide +kernel)

end Klett.Sor.RateTokens
