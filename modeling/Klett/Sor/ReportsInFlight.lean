import Klett.Sor.Children
import Klett.Sor.ExchangeAgreement
import Klett.Sor.ReportDelivery

namespace Klett.Sor

open Klett.Lib

namespace SimulatedExchange

variable {P : Platform} {x x' : SimulatedExchange} {draws : ℕ → Draws} {new : List ExecutionReport}

theorem turnsMeet_mono {C D : SimulatedExchange → Draws → Prop} (hcd : ∀ x d, C x d → D x d) {n i : ℕ}
    (h : TurnsMeet P C draws n i x) : TurnsMeet P D draws n i x := by
  induction n generalizing i x with
  | zero => trivial
  | succ n ih => exact ⟨hcd _ _ h.1, fun x' reports hfront => ih (h.2 x' reports hfront)⟩

instance decidableTurnsMeet {C : SimulatedExchange → Draws → Prop} [∀ x d, Decidable (C x d)] :
    ∀ n i x, Decidable (TurnsMeet P C draws n i x)
  | 0, _, _ => .isTrue trivial
  | n + 1, i, x =>
    have (next : SimulatedExchange × List ExecutionReport) :
        Decidable (TurnsMeet P C draws n (i + 1) next.1) := decidableTurnsMeet n (i + 1) next.1
    decidable_of_iff (C x (draws i) ∧ ∀ next ∈ x.matchFront P (draws i),
      TurnsMeet P C draws n (i + 1) next.1) <| by
        rw [TurnsMeet]
        exact and_congr_right fun _ => ⟨fun h x' reports hfront => h _ hfront, fun h next => h next.1 next.2⟩

def LateRejection (x : SimulatedExchange) (d : Draws) : Prop :=
  ∃ id ∈ x.pendingQueue.head?, ∃ internal ∈ x.activeOrders id, internal.pendingCancel = false ∧
    0 < internal.order.filledQuantity ∧ d.reject < x.config.rejectProbability

instance (x : SimulatedExchange) (d : Draws) : Decidable (x.LateRejection d) :=
  inferInstanceAs (Decidable (∃ id ∈ x.pendingQueue.head?, ∃ internal ∈ x.activeOrders id, _ ∧ _))

theorem processMatching_active (hk : Keyed x) (h : x.processMatching P draws = some (x', new)) :
    (∀ id, (x'.activeOrders id).isSome → (x.activeOrders id).isSome) ∧
      ∀ r ∈ new, (x.activeOrders r.orderId).isSome := by
  have hloop := matchTurns_invariant
    (I := fun y new => Keyed y ∧ (∀ id, (y.activeOrders id).isSome → (x.activeOrders id).isSome) ∧
      ∀ r ∈ new, (x.activeOrders r.orderId).isSome) []
    (fun y d y' before new hi _ hfront => ?_) ⟨hk, fun _ hid => hid, by simp⟩ (turnsMeet_true _ _ _) h
  · simpa using hloop.2
  obtain ⟨hkeyed, hactive, hreports⟩ := hi
  refine ⟨hkeyed.matchFront hfront, ?_⟩
  obtain ⟨queue, rfl, rfl, -⟩ | ⟨id, queue, internal, m, -, hfound, rfl, rfl, hout, -⟩ := matchFront_cases hfront
  · exact ⟨hactive, by simpa using hreports⟩
  · have hid : (x.activeOrders id).isSome := hactive id (by rw [hfound]; rfl)
    refine ⟨fun k hk' => ?_, fun r hr => ?_⟩
    · by_cases heq : k = id
      · rw [heq]
        exact hid
      · rw [settle_other heq] at hk'
        exact hactive k hk'
    · rcases List.mem_append.mp hr with hr | hr
      · exact hreports r hr
      · rw [hout.id_eq.2 r hr, hkeyed id internal hfound]
        exact hid

end SimulatedExchange

namespace ReportsInFlight

open Klett.Sor.System SimulatedExchange
open ExchangeAgreement (InStep about about_append about_self about_other)

variable {P : Platform}

structure Moves (x x' : SimulatedExchange) (new : List ExecutionReport) : Prop where
  keyed : Keyed x'
  active : ∀ id, (x'.activeOrders id).isSome → (x.activeOrders id).isSome
  reports : ∀ r ∈ new, (x.activeOrders r.orderId).isSome
  inStep : ∀ {o reports}, InStep o x reports → InStep o x' (reports ++ about o.id new)

variable {x x' : SimulatedExchange} {new : List ExecutionReport}

theorem Moves.refl (hk : Keyed x) : Moves x x [] :=
  ⟨hk, fun _ hid => hid, by simp, fun hi => by simpa [about] using hi⟩

theorem moves_cancelOrder (hk : Keyed x) (request : CancelRequest) :
    Moves x (x.cancelOrder request).2 [] := by
  refine ⟨hk.cancelOrder request, fun id hid => ?_, by simp, fun hi =>
    hi.step (P := .exact) (k := []) (a := .cancelOrder request) trivial rfl⟩
  obtain hsame | ⟨internal, hactive, hset⟩ := x.cancelOrder_cases request
  · rwa [hsame] at hid
  · by_cases heq : id = request.orderId
    · rw [heq, hactive]
      rfl
    · simpa [hset, heq] using hid

theorem moves_disconnect (hk : Keyed x) : Moves x x.disconnect [] :=
  ⟨hk, fun _ hid => hid, by simp, fun hi =>
    hi.step (P := .exact) (k := []) (a := .disconnect) trivial rfl⟩

theorem moves_run (hk : Keyed x) {op : ExchangeOp}
    (hlate : ∀ draws, op = .processMatching draws →
      TurnsMeet P (fun x d => ¬x.LateRejection d) draws x.pendingQueue.length 0 x)
    (h : VenueAdapter.run P x op = some (x', new)) : Moves x x' new := by
  cases op with
  | connect =>
    cases h
    refine ⟨?_, fun id hid => ?_, by simp, fun hi =>
      hi.step (P := .exact) (k := []) (a := .connect) trivial rfl⟩
    all_goals
      unfold connect at *
      split_ifs at * <;> assumption
  | disconnect =>
    cases h
    exact moves_disconnect hk
  | setMarketPrice bid ask =>
    cases h
    exact ⟨hk, fun _ hid => hid, by simp, fun hi =>
      hi.step (P := .exact) (k := []) (a := .setMarketPrice bid ask) trivial rfl⟩
  | processMatching draws =>
    have hactive := processMatching_active hk h
    refine ⟨hk.processMatching h, hactive.1, hactive.2, fun hi =>
      hi.step (P := P) (k := []) (a := .processMatching draws) ?_ h⟩
    refine turnsMeet_mono (fun x d hno hreject => hno ?_) (hlate draws rfl)
    obtain ⟨internal, hhead, hfound, hrest⟩ := hreject
    exact ⟨_, hhead, internal, hfound, hrest⟩

def ChildAt (g : Gateway SimulatedExchange) (venueId id : ℕ) : Prop :=
  ∃ o, g.child id = some o ∧ o.targetVenue = venueId

/-- What the venues work on and report is about children that were sent there, and the handler will be in
step with the venue of a child once it has heard the reports on their way: those in the queue, and after
them those that the venue has yet to hand over. -/
structure InFlight (g : Gateway SimulatedExchange) (outbox : ℕ → List ExecutionReport) : Prop where
  keyed : ∀ {v x}, g.venues v = some x → Keyed x
  active : ∀ {v x id}, g.venues v = some x → (x.activeOrders id).isSome → ChildAt g v id
  handed : ∀ {v r}, r ∈ outbox v → ChildAt g v r.orderId
  queued : ∀ {r}, r ∈ g.reportQueue.items → (g.child r.orderId).isSome
  inStep : ∀ {id o}, g.child id = some o → ∃ x, g.venues o.targetVenue = some x ∧
    InStep o x (about id (g.reportQueue.items ++ outbox o.targetVenue))

namespace InFlight

variable {g g' : Gateway SimulatedExchange} {outbox outbox' : ℕ → List ExecutionReport} {es : List Event}
  {unused : List ℕ} {r : ExecutionReport} {order : Order} {slice : Slice}

theorem congr (hi : InFlight g outbox) (hc : g'.child = g.child) (hv : g'.venues = g.venues)
    (hq : g'.reportQueue = g.reportQueue) : InFlight g' outbox := by
  refine ⟨?_, ?_, ?_, ?_, ?_⟩
  · rw [hv]
    exact hi.keyed
  · rw [hv]
    unfold ChildAt
    rw [hc]
    exact hi.active
  · unfold ChildAt
    rw [hc]
    exact hi.handed
  · rw [hc, hq]
    exact hi.queued
  · rw [hc, hv, hq]
    exact hi.inStep

def VenueMoves (before after : Option SimulatedExchange) (out out' : List ExecutionReport) : Prop :=
  before = none ∧ after = none ∧ out' = out ∨
    ∃ x x' new, before = some x ∧ after = some x' ∧ out' = out ++ new ∧ Moves x x' new

theorem moves (hi : InFlight g outbox) (hw : g.execHandler.WellFormed) {venues : ℕ → Option SimulatedExchange}
    (hv : ∀ v, VenueMoves (g.venues v) (venues v) (outbox v) (outbox' v)) :
    InFlight { g with venues := venues } outbox' := by
  refine ⟨fun {v x'} hx => ?_, fun {v x' id} hx hid => ?_, fun {v r} hr => ?_, hi.queued,
    fun {id o} hc => ?_⟩
  · obtain ⟨-, hnone, -⟩ | ⟨x, y, new, -, hsome, -, hmoves⟩ := hv v
    · cases hnone.symm.trans hx
    · obtain rfl : y = x' := Option.some.inj (hsome.symm.trans hx)
      exact hmoves.keyed
  · obtain ⟨-, hnone, -⟩ | ⟨x, y, new, hbefore, hsome, -, hmoves⟩ := hv v
    · cases hnone.symm.trans hx
    · obtain rfl : y = x' := Option.some.inj (hsome.symm.trans hx)
      exact hi.active hbefore (hmoves.active id hid)
  · obtain ⟨-, -, hout⟩ | ⟨x, y, new, hbefore, -, hout, hmoves⟩ := hv v
    · exact hi.handed (hout ▸ hr)
    · rw [hout] at hr
      rcases List.mem_append.mp hr with hr | hr
      · exact hi.handed hr
      · exact hi.active hbefore (hmoves.reports r hr)
  · obtain ⟨x, hx, hstep⟩ := hi.inStep hc
    have hid : o.id = id := hw.keyed (Gateway.child_eq_some.mp hc).2
    obtain ⟨hnone, -, -⟩ | ⟨y, x', new, hbefore, hafter, hout, hmoves⟩ := hv o.targetVenue
    · cases hnone.symm.trans hx
    · obtain rfl : y = x := Option.some.inj (hbefore.symm.trans hx)
      refine ⟨x', hafter, ?_⟩
      have hnext := hmoves.inStep hstep
      rw [hid] at hnext
      rwa [hout, ← List.append_assoc, about_append id (_ ++ _)]

theorem move {v : ℕ} (hi : InFlight g outbox) (hw : g.execHandler.WellFormed) (hx : g.venues v = some x)
    (hm : Moves x x' new) : InFlight { g with venues := Function.update g.venues v (some x') }
      (Function.update outbox v (outbox v ++ new)) := by
  refine hi.moves hw fun k => ?_
  by_cases hk : k = v
  · subst hk
    exact .inr ⟨x, x', new, hx, Function.update_self .., Function.update_self .., hm⟩
  · rw [Function.update_of_ne hk, Function.update_of_ne hk]
    cases hsome : g.venues k with
    | none => exact .inl ⟨rfl, rfl, rfl⟩
    | some y => exact .inr ⟨y, y, [], rfl, rfl, (List.append_nil _).symm, .refl (hi.keyed hsome)⟩

theorem notify {v : ℕ} {rest : List ExecutionReport} {queue : Fifo ExecutionReport 8192}
    (hi : InFlight g outbox) (houtbox : outbox v = r :: rest)
    (hpush : g.reportQueue.tryPush r = some queue) :
    InFlight { g with reportQueue := queue } (Function.update outbox v rest) := by
  have hitems := Fifo.tryPush_items hpush
  have hfrom : ChildAt g v r.orderId := hi.handed (by rw [houtbox]; exact List.mem_cons_self)
  refine ⟨hi.keyed, hi.active, fun {k s} hs => ?_, fun {s} hs => ?_, fun {id o} hc => ?_⟩
  · by_cases hk : k = v
    · rw [hk, Function.update_self] at hs
      rw [hk]
      exact hi.handed (by rw [houtbox]; exact List.mem_cons_of_mem _ hs)
    · rw [Function.update_of_ne hk] at hs
      exact hi.handed hs
  · rw [hitems] at hs
    rcases List.mem_append.mp hs with hs | hs
    · exact hi.queued hs
    · obtain ⟨o, ho, -⟩ := hfrom
      rw [List.mem_singleton.mp hs]
      exact Option.isSome_iff_exists.mpr ⟨o, ho⟩
  · obtain ⟨x, hx, hstep⟩ := hi.inStep hc
    refine ⟨x, hx, ?_⟩
    simp only [hitems]
    by_cases hv : o.targetVenue = v
    · rw [hv, Function.update_self, List.append_assoc, List.singleton_append, ← houtbox, ← hv]
      exact hstep
    · have hother : r.orderId ≠ id := by
        rintro rfl
        obtain ⟨o', ho', hv'⟩ := hfrom
        rw [Option.some.inj (hc.symm.trans ho')] at hv
        exact hv hv'
      have hnone : about id [r] = [] := about_other (by simpa using hother)
      rw [Function.update_of_ne hv, about_append, about_append, hnone, List.append_nil, ← about_append]
      exact hstep

theorem report {queue : Fifo ExecutionReport 8192} (hi : InFlight g outbox) (hw : g.execHandler.WellFormed)
    (hpop : g.reportQueue.tryPop = some (r, queue)) :
    InFlight ({ g with reportQueue := queue }.applyReport r) outbox := by
  have hitems := Fifo.tryPop_items hpop
  obtain ⟨o, hc⟩ := Option.isSome_iff_exists.mp (hi.queued (r := r) (by rw [hitems]; exact List.mem_cons_self))
  have hafter := Gateway.child_applyReport_after (g := { g with reportQueue := queue }) (r := r) hw hc
  obtain ⟨fills, hframe⟩ := { g with reportQueue := queue }.applyReport_frame (r := r)
  have hvenues : ({ g with reportQueue := queue }.applyReport r).venues = g.venues := by rw [hframe]
  have hqueue : ({ g with reportQueue := queue }.applyReport r).reportQueue = queue := by rw [hframe]
  have hvenue : ((o.onReport r).getD o).targetVenue = o.targetVenue := by
    cases hr : o.onReport r with
    | none => rfl
    | some o' =>
      obtain ⟨_, _, _, _, _, rfl⟩ := Order.sameTerms_onReport hr
      rfl
  have hkeep {v id : ℕ} (h : ChildAt g v id) : ChildAt ({ g with reportQueue := queue }.applyReport r) v id := by
    obtain ⟨o', ho', hv⟩ := h
    unfold ChildAt
    rw [hafter]
    by_cases hid : id = r.orderId
    · rw [hid, Function.update_self]
      rw [hid] at ho'
      exact ⟨_, rfl, by rw [hvenue, Option.some.inj (hc.symm.trans ho'), hv]⟩
    · rw [Function.update_of_ne hid]
      exact ⟨o', ho', hv⟩
  refine ⟨?_, fun {v x id} hx hid => ?_, fun {v s} hs => hkeep (hi.handed hs), fun {s} hs => ?_,
    fun {id o'} hc' => ?_⟩
  · rw [hvenues]
    exact hi.keyed
  · rw [hvenues] at hx
    exact hkeep (hi.active hx hid)
  · rw [hqueue] at hs
    have hold := hi.queued (r := s) (by rw [hitems]; exact List.mem_cons_of_mem _ hs)
    obtain ⟨o', ho'⟩ := Option.isSome_iff_exists.mp hold
    obtain ⟨o'', ho'', -⟩ := hkeep ⟨o', ho', rfl⟩
    exact Option.isSome_iff_exists.mpr ⟨o'', ho''⟩
  · rw [hafter] at hc'
    rw [hvenues, hqueue]
    by_cases hid : id = r.orderId
    · rw [hid, Function.update_self] at hc'
      obtain rfl : (o.onReport r).getD o = o' := Option.some.inj hc'
      obtain ⟨x, hx, hstep⟩ := hi.inStep hc
      have hself : about r.orderId [r] = [r] := about_self (by simp)
      rw [hitems, List.cons_append, ← List.singleton_append, about_append, hself] at hstep
      rw [hvenue, hid]
      exact ⟨x, hx, hstep.heard⟩
    · rw [Function.update_of_ne hid] at hc'
      obtain ⟨x, hx, hstep⟩ := hi.inStep hc'
      have hnone : about id [r] = [] := about_other (by simpa using Ne.symm hid)
      rw [hitems, List.cons_append, ← List.singleton_append, about_append, hnone, List.nil_append] at hstep
      exact ⟨x, hx, hstep⟩

def Reaches (g : Gateway SimulatedExchange) (v : ℕ) : Prop := ∃ x ∈ g.venues v, x.connected = true

instance (g : Gateway SimulatedExchange) (v : ℕ) : Decidable (Reaches g v) :=
  inferInstanceAs (Decidable (∃ x ∈ g.venues v, _))

theorem sendOrder_taken (order : Order) (hconn : x.connected = true)
    (hfree : x.activeOrders order.id = none) :
    x.sendOrder order = (true, (x.sendOrder order).2.1, [x.ackReport order]) ∧
      (x.sendOrder order).2.1.connected = true := by
  simp [sendOrder, hconn, hfree]

theorem dispatchSlice_sent (hx : g.venues slice.venueId = some x) (hconn : x.connected = true)
    (hfree : x.activeOrders g.nextOrderId = none)
    (hkept : ∀ e ∈ (g.dispatchSlice order slice).2, ReportDelivery.Kept e) :
    ∃ queue, g.reportQueue.tryPush (x.ackReport (Gateway.childOf order slice g.nextOrderId)) = some queue ∧
      (g.dispatchSlice order slice).1 = { g.createChild order slice with
        venues := Function.update g.venues slice.venueId
          (some (x.sendOrder (Gateway.childOf order slice g.nextOrderId)).2.1)
        reportQueue := queue } := by
  have htaken := (sendOrder_taken (Gateway.childOf order slice g.nextOrderId) hconn hfree).1
  have hvenue : (g.createChild order slice).venues slice.venueId = some x := hx
  have hsend : VenueAdapter.sendOrder x (Gateway.childOf order slice g.nextOrderId) = _ := htaken
  unfold Gateway.dispatchSlice Gateway.sendChild at hkept ⊢
  simp only [hvenue, hsend, Gateway.onExecutionReports, Gateway.onExecutionReport] at hkept ⊢
  cases hpush : (g.createChild order slice).reportQueue.tryPush
      (x.ackReport (Gateway.childOf order slice g.nextOrderId)) with
  | none =>
    rw [hpush] at hkept
    have hdropped := hkept (.reported (x.ackReport (Gateway.childOf order slice g.nextOrderId)) g.running false)
      (by simp [Gateway.createChild])
    cases hdropped
  | some queue => exact ⟨queue, hpush, rfl⟩

theorem sent {c : Order} {x₁ : SimulatedExchange} (hi : InFlight g outbox) (hw : g.execHandler.WellFormed)
    (hnew : g.child c.id = none) (hstate : c.state = .pendingNew) (hfilled : c.filledQuantity = 0)
    (hx : g.venues c.targetVenue = some x) (hsend : x.sendOrder c = (true, x₁, [x.ackReport c]))
    (hchild : g'.child = Function.update g.child c.id (some c))
    (hvenues : g'.venues = Function.update g.venues c.targetVenue (some x₁))
    (hqueue : g'.reportQueue.items = g.reportQueue.items ++ [x.ackReport c]) : InFlight g' outbox := by
  have hne {id : ℕ} {o : Order} (hc : g.child id = some o) : id ≠ c.id := by
    rintro rfl
    rw [hnew] at hc
    cases hc
  have hold {id : ℕ} {o : Order} (hc : g.child id = some o) : g'.child id = some o := by
    rw [hchild, Function.update_of_ne (hne hc)]
    exact hc
  have hself : g'.child c.id = some c := by rw [hchild, Function.update_self]
  have hkeep {v id : ℕ} (h : ChildAt g v id) : ChildAt g' v id := by
    obtain ⟨o, hc, hv⟩ := h
    exact ⟨o, hold hc, hv⟩
  have hack : (x.ackReport c).orderId = c.id := rfl
  have htaken : (x.sendOrder c).2.1 = x₁ := by rw [hsend]
  refine ⟨fun {v y} hy => ?_, fun {v y id} hy hid => ?_, fun hr => hkeep (hi.handed hr), fun {r} hr => ?_,
    fun {id o} hc => ?_⟩
  · rw [hvenues] at hy
    by_cases hv : v = c.targetVenue
    · rw [hv, Function.update_self] at hy
      rw [← Option.some.inj hy, ← htaken]
      exact (hi.keyed hx).sendOrder c
    · rw [Function.update_of_ne hv] at hy
      exact hi.keyed hy
  · rw [hvenues] at hy
    by_cases hv : v = c.targetVenue
    · rw [hv, Function.update_self] at hy
      rw [hv]
      by_cases hid' : id = c.id
      · rw [hid']
        exact ⟨c, hself, rfl⟩
      · refine hkeep (hi.active hx ?_)
        rw [← Option.some.inj hy, ← htaken] at hid
        obtain hsame | ⟨-, -, hset⟩ := x.sendOrder_cases c
        · rwa [hsame] at hid
        · simpa [hset, hid'] using hid
    · rw [Function.update_of_ne hv] at hy
      exact hkeep (hi.active hy hid)
  · rw [hqueue] at hr
    rcases List.mem_append.mp hr with hr | hr
    · obtain ⟨o, ho⟩ := Option.isSome_iff_exists.mp (hi.queued hr)
      exact Option.isSome_iff_exists.mpr ⟨o, hold ho⟩
    · rw [List.mem_singleton.mp hr]
      exact Option.isSome_iff_exists.mpr ⟨c, hself⟩
  · rw [hvenues, hqueue]
    by_cases hid : id = c.id
    · obtain rfl : c = o := Option.some.inj (by rw [← hself, ← hid, hc])
      obtain ⟨hstep, -⟩ := InStep.accepted (hi.keyed hx) hstate hfilled hsend
      have hqueued : ∀ r ∈ g.reportQueue.items, r.orderId ≠ id := fun r hr heq => by
        obtain ⟨o, ho⟩ := Option.isSome_iff_exists.mp (hi.queued hr)
        exact hne ho (heq.trans hid)
      have hhanded : ∀ r ∈ outbox c.targetVenue, r.orderId ≠ id := fun r hr heq => by
        obtain ⟨o, ho, -⟩ := hi.handed hr
        exact hne ho (heq.trans hid)
      refine ⟨x₁, Function.update_self .., ?_⟩
      rw [about_append, about_append, about_other hqueued, about_other hhanded, List.nil_append, List.append_nil,
        about_self (by simpa [hack] using hid.symm)]
      exact hstep
    · rw [hchild, Function.update_of_ne hid] at hc
      obtain ⟨y, hy, hstep⟩ := hi.inStep hc
      have hother : about id [x.ackReport c] = [] := about_other (by simpa [hack] using Ne.symm hid)
      have hsame : about id (g.reportQueue.items ++ [x.ackReport c] ++ outbox o.targetVenue) =
          about id (g.reportQueue.items ++ outbox o.targetVenue) := by
        rw [about_append, about_append, hother, List.append_nil, ← about_append]
      rw [hsame]
      by_cases hv : o.targetVenue = c.targetVenue
      · obtain rfl : x = y := Option.some.inj (by rw [← hx, ← hv, hy])
        have hoid : o.id = id := hw.keyed (Gateway.child_eq_some.mp hc).2
        have hstepped : (ExchangeAgreement.machine .exact).step x (.sendOrder c) =
            some (x₁, [x.ackReport c]) := by
          change some (x.sendOrder c).2 = _
          rw [hsend]
        have hfresh : ExchangeAgreement.NoLateReject .exact o.id [] x (.sendOrder c) :=
          fun heq => absurd (heq.trans hoid).symm hid
        have hnext := hstep.step hfresh hstepped
        rw [hoid, hother, List.append_nil] at hnext
        rw [hv, Function.update_self]
        exact ⟨x₁, rfl, hv ▸ hnext⟩
      · rw [Function.update_of_ne hv]
        exact ⟨y, hy, hstep⟩

theorem dispatchSlice (hi : InFlight g outbox) (hn : Numbered es g unused) (hreach : Reaches g slice.venueId)
    (hkept : ∀ e ∈ (g.dispatchSlice order slice).2, ReportDelivery.Kept e) :
    InFlight (g.dispatchSlice order slice).1 outbox ∧
      ∀ v, Reaches g v → Reaches (g.dispatchSlice order slice).1 v := by
  obtain ⟨x, hx, hconn⟩ := hreach
  have hnew : g.child g.nextOrderId = none :=
    Option.eq_none_iff_forall_ne_some.mpr fun o hc => (Gateway.child_bounded hn hc).ne rfl
  have hfree : x.activeOrders g.nextOrderId = none := by
    by_contra hactive
    obtain ⟨o, ho, -⟩ := hi.active hx (Option.isSome_iff_ne_none.mpr hactive)
    rw [hnew] at ho
    cases ho
  obtain ⟨queue, hpush, heq⟩ := dispatchSlice_sent hx hconn hfree hkept
  obtain ⟨hsend, hconnected⟩ :=
    sendOrder_taken (Gateway.childOf order slice g.nextOrderId) hconn hfree
  refine ⟨hi.sent hn.handler hnew rfl rfl hx hsend ?_ ?_ ?_, fun v hv => ?_⟩
  · rw [heq, Gateway.childOf_id, ← Gateway.child_createChild]
    rfl
  · rw [heq]
    rfl
  · rw [heq]
    exact Fifo.tryPush_items hpush
  · unfold Reaches
    rw [heq]
    by_cases hself : v = slice.venueId
    · rw [hself]
      exact ⟨_, Function.update_self .., hconnected⟩
    · obtain ⟨y, hy, hyconn⟩ := hv
      exact ⟨y, (Function.update_of_ne hself ..).trans hy, hyconn⟩

theorem processSingleOrder {t : Readings} (hi : InFlight g outbox) (hn : Numbered es g unused)
    (hr : Ready es g unused order) (hsent : ∀ slice ∈ g.slicesFor P order t, Reaches g slice.venueId)
    (hkept : ∀ e ∈ (g.processSingleOrder P order t).2, ReportDelivery.Kept e) :
    InFlight (g.processSingleOrder P order t).1 outbox := by
  have hall := hn.processSingleOrder_invariant (P := P) (t := t) (Q := ReportDelivery.Kept)
    (I := fun _ g' => InFlight g' outbox ∧ ∀ slice ∈ g.slicesFor P order t, Reaches g' slice.venueId) hr
    (fun _ _ => ⟨hi.congr rfl rfl rfl, hsent⟩)
    (fun _ engine limiter => ⟨hi.congr (Gateway.child_admitted hr engine limiter) rfl rfl, hsent⟩)
    (fun g' _ slice hslice hkept hn' _ hi' => by
      obtain ⟨hflight, hreach⟩ := hi'.1.dispatchSlice hn' (hi'.2 slice hslice) hkept
      exact ⟨hflight, fun s hs => hreach _ (hi'.2 s hs)⟩) hkept
  exact hall.2.1

theorem cancelChild (hi : InFlight g outbox) (hw : g.execHandler.WellFormed) (request : CancelRequest)
    (childId : ℕ) : InFlight (g.cancelChild request childId).1 outbox := by
  obtain heq | ⟨child, x, -, -, hx, heq⟩ := g.cancelChild_cases request childId
  · rw [heq]
    exact hi
  · rw [heq]
    have hmoved := hi.move hw hx (moves_cancelOrder (hi.keyed hx) { request with orderId := childId })
    rw [List.append_nil, Function.update_eq_self] at hmoved
    exact hmoved

theorem cancelChildren (hi : InFlight g outbox) (hw : g.execHandler.WellFormed) (request : CancelRequest)
    (childIds : List ℕ) : InFlight (Gateway.cancelChildren request g childIds).1 outbox := by
  induction childIds generalizing g with
  | nil => exact hi
  | cons childId childIds ih =>
    obtain ⟨⟨_, _, hcalls⟩, -⟩ := g.cancelChild_calls request childId
    have hw' : (g.cancelChild request childId).1.execHandler.WellFormed := by
      rw [hcalls]
      exact hw
    exact ih (hi.cancelChild hw request childId) hw'

theorem processCancel (hi : InFlight g outbox) (hw : g.execHandler.WellFormed) (request : CancelRequest) :
    InFlight (g.processCancel request).1 outbox := by
  unfold Gateway.processCancel
  split
  · exact hi
  · exact hi.cancelChildren hw request _

theorem processReport {t : Readings} {queue : Fifo ExecutionReport 8192} (hi : InFlight g outbox)
    (hn : Numbered es g unused) (hpop : g.reportQueue.tryPop = some (r, queue))
    (hsent : ∀ parent, { g with reportQueue := queue }.rerouteDue r = some parent →
      ∀ slice ∈ ({ g with reportQueue := queue }.applyReport r).slicesFor P (Gateway.rerouteOrder parent) t,
        Reaches ({ g with reportQueue := queue }.applyReport r) slice.venueId)
    (hkept : ∀ e ∈ ({ g with reportQueue := queue }.processReport P r t).2, ReportDelivery.Kept e) :
    InFlight ({ g with reportQueue := queue }.processReport P r t).1 outbox := by
  have hreport := hi.report hn.handler hpop
  have hn' : Numbered es { g with reportQueue := queue } unused := hn.quiet rfl rfl le_rfl
  obtain ⟨done, -, ⟨-, heq⟩ | ⟨parent, hdue, heq⟩⟩ := Gateway.processReport_cases (P := P)
    (g := { g with reportQueue := queue }) r t
  · rw [heq]
    exact hreport
  · rw [heq] at hkept ⊢
    refine hreport.processSingleOrder (hn'.applyReport r) (hn'.reroute hdue).1 (hsent parent hdue)
      fun e he => hkept e ?_
    exact List.mem_append_left _ (List.mem_cons_of_mem _ he)

end InFlight

def matching (s : System SimulatedExchange) : Action SimulatedExchange → Option (SimulatedExchange × (ℕ → Draws))
  | .venue venueId (.processMatching draws) => (s.gateway.venues venueId).map fun x => (x, draws)
  | _ => none

def NoLateRejects (P : Platform) : Machine.Guard (System SimulatedExchange) (Action SimulatedExchange) Event :=
  fun _ s a => ∀ m ∈ matching s a,
    TurnsMeet P (fun x d => ¬x.LateRejection d) m.2 m.1.pendingQueue.length 0 m.1

def VenuesReachable (P : Platform) : Machine.Guard (System SimulatedExchange) (Action SimulatedExchange) Event :=
  fun _ s a => ∀ x ∈ s.takenUp a, ∀ slice ∈ x.gateway.slicesFor P x.order x.readings,
    InFlight.Reaches x.gateway slice.venueId

instance (k : Trace (Action SimulatedExchange) Event) (s : System SimulatedExchange)
    (a : Action SimulatedExchange) : Decidable (NoLateRejects P k s a) :=
  inferInstanceAs (Decidable (∀ m ∈ matching s a, TurnsMeet P _ m.2 m.1.pendingQueue.length 0 m.1))

instance (k : Trace (Action SimulatedExchange) Event) (s : System SimulatedExchange)
    (a : Action SimulatedExchange) : Decidable (VenuesReachable P k s a) :=
  inferInstanceAs (Decidable (∀ x ∈ s.takenUp a, ∀ slice ∈ x.gateway.slicesFor P x.order x.readings, _))

theorem InFlight.step {s s' : System SimulatedExchange} {a : Action SimulatedExchange} {es : List Event}
    {k : Trace (Action SimulatedExchange) Event} (hi : InFlight s.gateway s.outbox)
    (hn : Numbered k.events s.gateway s.unused) (hroom : ReportDelivery.HasRoom P k s a)
    (hlate : NoLateRejects P k s a) (hreach : VenuesReachable P k s a)
    (h : (System.machine P).step s a = some (s', es)) : InFlight s'.gateway s'.outbox := by
  have hkept := ReportDelivery.kept_of_queued ((ReportDelivery.step_handles h).fits (hroom _ h))
  cases step_effect h with
  | quiet hq =>
    rw [hq.outbox]
    exact hi.congr (Gateway.child_congr hq.execHandler) hq.venues hq.reportQueue
  | stopped hthread =>
    refine hi.moves hn.handler fun v => ?_
    cases hx : s.gateway.venues v with
    | none => exact .inl ⟨rfl, rfl, rfl⟩
    | some x =>
      exact .inr ⟨x, x.disconnect, [], rfl, rfl, (List.append_nil _).symm, moves_disconnect (hi.keyed hx)⟩
  | allocated => exact hi.congr rfl rfl rfl
  | submitted hassign hpush => exact hi.congr rfl rfl rfl
  | @orderTaken order queue t hthread hpop =>
    obtain ⟨hpopped, hready, -⟩ := hn.pop hpop
    have hi' : InFlight { s.gateway with orderQueue := queue } s.outbox := hi.congr rfl rfl rfl
    exact hi'.processSingleOrder hpopped hready (hreach _ (takenUp_of_pop hthread hpop)) hkept
  | @cancelTaken request queue t =>
    have hi' : InFlight { s.gateway with cancelQueue := queue } s.outbox := hi.congr rfl rfl rfl
    exact hi'.processCancel hn.handler request
  | @reportTaken report queue t hthread hpop =>
    exact hi.processReport hn hpop
      (fun parent hdue => hreach _ (takenUp_of_due (reroute_of_due hthread hpop hdue))) hkept
  | @venueRan venueId x x' op reports hfound hrun =>
    refine hi.move hn.handler hfound (moves_run (hi.keyed hfound) (fun draws hop => ?_) hrun)
    subst hop
    have hmatching : matching s (.venue venueId (.processMatching draws)) = some (x, draws) := by
      simp [matching, hfound]
    exact hlate _ hmatching
  | @notified venueId report reports houtbox =>
    unfold Gateway.onExecutionReport at hkept ⊢
    cases hpush : s.gateway.reportQueue.tryPush report with
    | some queue => exact hi.notify houtbox hpush
    | none =>
      rw [hpush] at hkept
      have hdropped := hkept _ (List.mem_singleton_self _)
      cases hdropped

end ReportsInFlight

end Klett.Sor
