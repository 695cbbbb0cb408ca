import Klett.Sor.GatewaySteps

namespace Klett.Sor

open Klett.Lib

/-- Venues of two kinds in one gateway. -/
instance {V W : Type} [VenueAdapter V] [VenueAdapter W] : VenueAdapter (V ⊕ W) where
  Op := VenueAdapter.Op V ⊕ VenueAdapter.Op W
  disconnect
    | .inl x => .inl (VenueAdapter.disconnect x)
    | .inr y => .inr (VenueAdapter.disconnect y)
  sendOrder
    | .inl x, order =>
      let (sent, x, reports) := VenueAdapter.sendOrder x order
      (sent, .inl x, reports)
    | .inr y, order =>
      let (sent, y, reports) := VenueAdapter.sendOrder y order
      (sent, .inr y, reports)
  cancelOrder
    | .inl x, request =>
      let (sent, x, reports) := VenueAdapter.cancelOrder x request
      (sent, .inl x, reports)
    | .inr y, request =>
      let (sent, y, reports) := VenueAdapter.cancelOrder y request
      (sent, .inr y, reports)
  run P
    | .inl x, .inl op => (VenueAdapter.run P x op).map fun (x, reports) => (.inl x, reports)
    | .inr y, .inr op => (VenueAdapter.run P y op).map fun (y, reports) => (.inr y, reports)
    | _, _ => none

namespace VenueRuns

variable {V : Type} {v : ℕ} {es es' : List Event}

/-- The orders that a venue accepted, in the order in which they were sent there. -/
def sentTo (v : ℕ) (es : List Event) : List Order :=
  es.filterMap fun
    | .childSent child true => if child.targetVenue = v then some child else none
    | _ => none

@[simp] theorem sentTo_append : sentTo v (es ++ es') = sentTo v es ++ sentTo v es' := by simp [sentTo]

theorem sentTo_sent (child : Order) (sent : Bool) : sentTo v [.childSent child sent] =
    if sent ∧ child.targetVenue = v then [child] else [] := by
  cases sent with
  | false => rfl
  | true => by_cases hv : child.targetVenue = v <;> simp [sentTo, hv]

theorem sentTo_reported (h : ∀ e ∈ es, e.IsReported) : sentTo v es = [] := by
  simp only [sentTo, List.filterMap_eq_nil_iff]
  intro e he
  have hreported := h e he
  cases e <;> first | rfl | cases hreported

variable [VenueAdapter V] {P : Platform} {I : V → List Order → Prop}

variable (P I) in
/-- What a venue knows of the orders it accepted outlasts every call, and whatever it does itself. -/
structure Kept : Prop where
  sendOrder : ∀ x orders order, I x orders → I (VenueAdapter.sendOrder x order).2.1
    (if (VenueAdapter.sendOrder x order).1 then orders ++ [order] else orders)
  cancelOrder : ∀ x orders request, I x orders → I (VenueAdapter.cancelOrder x request).2.1 orders
  disconnect : ∀ x orders, I x orders → I (VenueAdapter.disconnect x) orders
  run : ∀ x orders op x' reports, VenueAdapter.run P x op = some (x', reports) → I x orders → I x' orders

def Knows {V : Type} (I : V → List Order → Prop) (v : ℕ) (es : List Event) (g : Gateway V) : Prop :=
  ∃ x, g.venues v = some x ∧ I x (sentTo v es)

namespace Knows

variable {g g' : Gateway V}

omit [VenueAdapter V] in
theorem same (hk : Knows I v es g) (hv : g'.venues = g.venues) (hes : sentTo v es' = []) :
    Knows I v (es ++ es') g' := by
  obtain ⟨x, hx, hi⟩ := hk
  refine ⟨x, by rw [hv, hx], ?_⟩
  rw [sentTo_append, hes, List.append_nil]
  exact hi

omit [VenueAdapter V] in
theorem after {e : Event} (hk : Knows I v (es ++ [e] ++ es') g) : Knows I v (es ++ e :: es') g := by
  rw [List.append_assoc, List.singleton_append] at hk
  exact hk

omit [VenueAdapter V] in
theorem reports (hk : Knows I v es g) (reports : List ExecutionReport) :
    Knows I v (es ++ (g.onExecutionReports reports).2) (g.onExecutionReports reports).1 :=
  hk.same (Gateway.onExecutionReports_venues reports)
    (sentTo_reported (Gateway.onExecutionReports_calls reports).2)

omit [VenueAdapter V] in
theorem update {w : ℕ} {venue venue' : V} (hk : Knows I v es g) (hw : g.venues w = some venue)
    (hi : w = v → I venue (sentTo v es) → I venue' (sentTo v (es ++ es')))
    (hother : w ≠ v → sentTo v es' = []) :
    Knows I v (es ++ es') { g with venues := Function.update g.venues w (some venue') } := by
  obtain ⟨x, hx, hknown⟩ := hk
  by_cases heq : w = v
  · subst heq
    obtain rfl : venue = x := Option.some.inj (hw.symm.trans hx)
    exact ⟨venue', Function.update_self .., hi rfl hknown⟩
  · refine ⟨x, ?_, ?_⟩
    · simp only [Function.update_of_ne (Ne.symm heq), hx]
    · rw [sentTo_append, hother heq, List.append_nil]
      exact hknown

variable (hkept : Kept P I)

include hkept

theorem sendChild (hk : Knows I v es g) (child : Order) :
    Knows I v (es ++ (g.sendChild child child.targetVenue).2) (g.sendChild child child.targetVenue).1 := by
  unfold Gateway.sendChild
  cases hw : g.venues child.targetVenue with
  | none => simpa using hk
  | some venue =>
    have hsent : Knows I v (es ++ [.childSent child (VenueAdapter.sendOrder venue child).1]) { g with
        venues := Function.update g.venues child.targetVenue
          (some (VenueAdapter.sendOrder venue child).2.1) } := by
      apply hk.update hw
      · intro heq hi
        have hsend := hkept.sendOrder venue _ child hi
        rw [sentTo_append, sentTo_sent]
        cases hs : (VenueAdapter.sendOrder venue child).1 <;> simpa [hs, heq] using hsend
      · intro hne
        rw [sentTo_sent, if_neg fun h => hne h.2]
    exact (hsent.reports (VenueAdapter.sendOrder venue child).2.2).after

theorem dispatchSlices (hk : Knows I v es g) (order : Order) (slices : List Slice) :
    Knows I v (es ++ (Gateway.dispatchSlices order g slices).2) (Gateway.dispatchSlices order g slices).1 := by
  refine Gateway.dispatchSlices_invariant (fun g es => Knows I v es g) (fun _ => True) order slices es
    (fun g es slice _ _ hk => ?_) hk fun _ _ => trivial
  let child := Gateway.childOf order slice g.nextOrderId
  have hcreated : Knows I v (es ++ [.childCreated order.id child]) (g.createChild order slice) :=
    hk.same rfl rfl
  exact (hcreated.sendChild hkept child).after

theorem processSingleOrder (hk : Knows I v es g) (order : Order) (t : Readings) :
    Knows I v (es ++ (g.processSingleOrder P order t).2) (g.processSingleOrder P order t).1 := by
  cases hpass : g.passes order t with
  | false =>
    obtain ⟨limiter, heq⟩ := Gateway.processSingleOrder_refused (P := P) hpass
    rw [heq]
    exact hk.same rfl rfl
  | true =>
    obtain ⟨engine, limiter, heq⟩ := Gateway.processSingleOrder_passed (P := P) hpass
    rw [heq]
    have hadmitted : Knows I v (es ++ [.tracked (order.apply .submit)])
        (g.admitted (order.apply .submit) engine limiter) := hk.same rfl rfl
    exact (hadmitted.dispatchSlices hkept (order.apply .submit) (g.slicesFor P order t)).after

theorem processReport (hk : Knows I v es g) (r : ExecutionReport) (t : Readings) :
    Knows I v (es ++ (g.processReport P r t).2) (g.processReport P r t).1 := by
  obtain ⟨fills, happly⟩ := g.applyReport_frame (r := r)
  have happlied : Knows I v (es ++ [.processed r (g.applies r)]) (g.applyReport r) :=
    hk.same (by rw [happly]) rfl
  obtain ⟨done, hd, hcases⟩ := g.processReport_cases (P := P) r t
  have hdone : sentTo v done = [] := by
    simp only [sentTo, List.filterMap_eq_nil_iff]
    intro e he
    obtain ⟨o, rfl⟩ := hd e he
    rfl
  rcases hcases with ⟨-, heq⟩ | ⟨parent, -, heq⟩
  · rw [heq]
    have hall : Knows I v _ (g.applyReport r) := happlied.same rfl hdone
    exact hall.after
  · rw [heq]
    have hagain := happlied.processSingleOrder hkept (Gateway.rerouteOrder parent) t
    have hall := hagain.same rfl hdone
    simpa only [List.append_assoc, List.nil_append, List.cons_append] using hall

theorem cancelChildren (hk : Knows I v es g) (request : CancelRequest) (childIds : List ℕ) :
    Knows I v (es ++ (Gateway.cancelChildren request g childIds).2)
      (Gateway.cancelChildren request g childIds).1 := by
  have hchild (g : Gateway V) (es : List Event) (childId : ℕ) (hk : Knows I v es g) :
      Knows I v (es ++ (g.cancelChild request childId).2) (g.cancelChild request childId).1 := by
    obtain heq | ⟨child, venue, -, -, hw, heq⟩ := g.cancelChild_cases request childId
    · rw [heq]
      exact hk.same rfl rfl
    · rw [heq]
      let forwarded := VenueAdapter.cancelOrder venue { request with orderId := childId }
      have hforwarded : Knows I v (es ++ []) { g with
          venues := Function.update g.venues child.targetVenue (some forwarded.2.1) } := by
        apply hk.update hw
        · intro _ hi
          rw [List.append_nil]
          exact hkept.cancelOrder venue _ _ hi
        · exact fun _ => rfl
      rw [List.append_nil] at hforwarded
      exact hforwarded.reports forwarded.2.2
  induction childIds generalizing g es with
  | nil => exact hk.same rfl rfl
  | cons childId childIds ih =>
    have hall := ih (hchild g es childId hk)
    rw [List.append_assoc] at hall
    exact hall

theorem processCancel (hk : Knows I v es g) (request : CancelRequest) :
    Knows I v (es ++ (g.processCancel request).2) (g.processCancel request).1 := by
  unfold Gateway.processCancel
  split
  · exact hk.same rfl rfl
  · have htaken : Knows I v (es ++ [.cancelTaken request.orderId]) g := hk.same rfl rfl
    exact (htaken.cancelChildren hkept request (g.execHandler.getChildren request.orderId)).after

theorem step {s s' : System V} {a : Action V} (hk : Knows I v es s.gateway)
    (h : (System.machine P).step s a = some (s', es')) : Knows I v (es ++ es') s'.gateway := by
  cases System.step_effect h with
  | quiet hq => exact hk.same hq.venues rfl
  | stopped =>
    obtain ⟨x, hx, hi⟩ := hk
    refine ⟨VenueAdapter.disconnect x, by simp only [hx, Option.map_some], ?_⟩
    rw [sentTo_append]
    simpa [sentTo] using hkept.disconnect x _ hi
  | allocated => exact hk.same rfl rfl
  | submitted hassign hpush => exact hk.same rfl rfl
  | @orderTaken order queue t =>
    have hpopped : Knows I v es { s.gateway with orderQueue := queue } := hk
    exact hpopped.processSingleOrder hkept order t
  | @cancelTaken request queue t =>
    have hpopped : Knows I v es { s.gateway with cancelQueue := queue } := hk
    exact hpopped.processCancel hkept request
  | @reportTaken report queue t =>
    have hpopped : Knows I v es { s.gateway with reportQueue := queue } := hk
    exact hpopped.processReport hkept report t
  | @venueRan w venue venue' op reports hfound hrun =>
    apply hk.update hfound
    · intro _ hi
      rw [List.append_nil]
      exact hkept.run venue _ op venue' reports hrun hi
    · exact fun _ => rfl
  | @notified w report reports =>
    have hone := hk.reports [report]
    simpa only [Gateway.onExecutionReports, List.append_nil] using hone

/-- The rule for a single venue: what its calls keep holds of it in every run of the gateway. -/
theorem of_reach {C : Machine.Guard (System V) (Action V) Event} {s₀ s : System V}
    {h : Trace (Action V) Event} {x : V} (hr : (System.machine P).Reach C s₀ h s)
    (hx : s₀.gateway.venues v = some x) (hi : I x []) : Knows I v h.events s.gateway := by
  apply hr.invariant (I := fun k u => Knows I v k.events u.gateway) ⟨x, hx, hi⟩
  intro k u a u' es hk _ hstep
  rw [Trace.events_append, Trace.events_single]
  exact hk.step hkept hstep

end Knows

end VenueRuns

end Klett.Sor
