import Mathlib.Data.List.Nodup
import Klett.Sor.GatewaySteps

namespace Klett.Sor

open Klett.Lib

variable {V : Type}

/-- A client submits an order under an id of its own only if it got the id from `allocate_order_id`
and has not used it yet. -/
def FreshIds [VenueAdapter V] : Machine.Guard (System V) (Action V) Event := fun _ s a =>
  ∀ order ∈ a.submits, order.id = invalidOrderId ∨ order.id ∈ s.unused

instance [VenueAdapter V] (k : Trace (Action V) Event) (s : System V) (a : Action V) :
    Decidable (FreshIds k s a) :=
  inferInstanceAs (Decidable (∀ order ∈ a.submits, _ ∨ _))

def waiting (g : Gateway V) (unused : List ℕ) : List ℕ := unused ++ g.orderQueue.items.map Order.id

/-- Ids are given out once: to an order a client submits or to a child. `es` is what the run has shown. -/
structure Numbered (es : List Event) (g : Gateway V) (unused : List ℕ) : Prop where
  handler : g.execHandler.WellFormed
  bounded : ∀ {id}, (g.execHandler.orders id).isSome → id < g.nextOrderId
  waiting_nodup : (waiting g unused).Nodup
  waiting_new : ∀ {id}, id ∈ waiting g unused → id < g.nextOrderId ∧ g.execHandler.orders id = none
  created : ∀ {p c}, g.execHandler.childToParent c = some p ↔
    ∃ child, .childCreated p child ∈ es ∧ child.id = c
  submitted : ∀ {o}, .submitted o ∈ es →
    o.id < g.nextOrderId ∧ o.id ∉ unused ∧ g.execHandler.childToParent o.id = none
  queued : ∀ {o}, o ∈ g.orderQueue.items → .submitted o ∈ es
  once : ∀ {o o'}, .submitted o ∈ es → .submitted o' ∈ es → o.id = o'.id → o = o'
  terms : ∀ {o p}, .submitted o ∈ es → g.execHandler.orders o.id = some p →
    p.type = o.type ∧ p.tif = o.tif

structure Ready (es : List Event) (g : Gateway V) (unused : List ℕ) (order : Order) : Prop where
  root : g.execHandler.childToParent order.id = none
  bounded : order.id < g.nextOrderId
  taken : order.id ∉ waiting g unused
  terms : ∀ {o}, .submitted o ∈ es → o.id = order.id → order.type = o.type ∧ order.tif = o.tif

structure IsRoot (g : Gateway V) (id : ℕ) : Prop where
  tracked : (g.execHandler.orders id).isSome
  root : g.execHandler.childToParent id = none

def Event.NoId : Event → Prop
  | submitted _ | childCreated .. => False
  | _ => True

namespace Numbered

variable {es es' : List Event} {g g' : Gateway V} {unused : List ℕ} {order : Order}

theorem initial [VenueAdapter V] {venues : ℕ → Option V} {engine : RoutingEngine} {md : MarketDataAggregator}
    {limits : RiskLimits} {symbolLimits : Symbol → Option RiskLimits} {limiter : RateLimiter} :
    Numbered [] (System.initialized venues engine md limits symbolLimits limiter).gateway [] := by
  constructor
  case handler => constructor <;> simp [System.initialized, ExecutionHandler.getChildren]
  all_goals simp [System.initialized, waiting]

theorem same (hn : Numbered es g unused) (hh : g'.execHandler = g.execHandler)
    (hq : g'.orderQueue = g.orderQueue) (hid : g.nextOrderId ≤ g'.nextOrderId)
    (hes : ∀ e ∈ es', e.NoId) : Numbered (es ++ es') g' unused := by
  have hcreated {p : ℕ} {child : Order} : .childCreated p child ∈ es ++ es' ↔ .childCreated p child ∈ es := by
    rw [List.mem_append, or_iff_left fun he => hes (.childCreated p child) he]
  have hsubmitted {o : Order} : .submitted o ∈ es ++ es' ↔ .submitted o ∈ es := by
    rw [List.mem_append, or_iff_left fun he => hes (.submitted o) he]
  have hw : waiting g' unused = waiting g unused := by rw [waiting, waiting, hq]
  refine ⟨?_, ?_, ?_, ?_, ?_, ?_, ?_, ?_, ?_⟩
  · rw [hh]
    exact hn.handler
  · rw [hh]
    exact fun hsome => (hn.bounded hsome).trans_le hid
  · rw [hw]
    exact hn.waiting_nodup
  · rw [hw, hh]
    exact fun hid' => ⟨(hn.waiting_new hid').1.trans_le hid, (hn.waiting_new hid').2⟩
  · simp only [hh, hcreated]
    exact hn.created
  · simp only [hh, hsubmitted]
    exact fun ho => ⟨(hn.submitted ho).1.trans_le hid, (hn.submitted ho).2⟩
  · simp only [hq, hsubmitted]
    exact hn.queued
  · simp only [hsubmitted]
    exact hn.once
  · simp only [hh, hsubmitted]
    exact hn.terms

theorem quiet (hn : Numbered es g unused) (hh : g'.execHandler = g.execHandler)
    (hq : g'.orderQueue = g.orderQueue) (hid : g.nextOrderId ≤ g'.nextOrderId) : Numbered es g' unused := by
  have hsame := hn.same hh hq hid (List.forall_mem_nil Event.NoId)
  rwa [List.append_nil] at hsame

theorem calls (hn : Numbered es g unused) (hc : g.VenueCalls g') (hes : ∀ e ∈ es', e.NoId) :
    Numbered (es ++ es') g' unused := by
  obtain ⟨venues, queue, rfl⟩ := hc
  exact hn.same rfl rfl le_rfl hes

theorem pop (hn : Numbered es g unused) {queue : Fifo Order 8192}
    (hpop : g.orderQueue.tryPop = some (order, queue)) :
    Numbered es { g with orderQueue := queue } unused ∧
      Ready es { g with orderQueue := queue } unused order ∧
      g.execHandler.orders order.id = none ∧ .submitted order ∈ es := by
  have hitems := Fifo.tryPop_items hpop
  have hperm : (waiting g unused).Perm (order.id :: waiting { g with orderQueue := queue } unused) := by
    rw [waiting, waiting, hitems]
    exact List.perm_middle
  have hnodup := hperm.nodup_iff.mp hn.waiting_nodup
  have hnew := hn.waiting_new (hperm.mem_iff.mpr List.mem_cons_self)
  have hsubmitted : .submitted order ∈ es := hn.queued (by rw [hitems]; exact List.mem_cons_self)
  refine ⟨⟨hn.handler, hn.bounded, (List.nodup_cons.mp hnodup).2, fun hid => hn.waiting_new
    (hperm.mem_iff.mpr (List.mem_cons_of_mem _ hid)), hn.created, hn.submitted, fun ho => hn.queued
    (by rw [hitems]; exact List.mem_cons_of_mem _ ho), hn.once, hn.terms⟩,
    ⟨(hn.submitted hsubmitted).2.2, hnew.1, (List.nodup_cons.mp hnodup).1, fun ho hid => ?_⟩,
    hnew.2, hsubmitted⟩
  rw [hn.once ho hsubmitted hid]
  exact ⟨rfl, rfl⟩

theorem push (hn : Numbered es g unused) {queue : Fifo Order 8192} {nextOrderId : ℕ}
    (hpush : g.orderQueue.tryPush order = some queue) (hnext : g.nextOrderId ≤ nextOrderId)
    (hfresh : order.id ∈ unused ∨ order.id = g.nextOrderId ∧ g.nextOrderId < nextOrderId) :
    Numbered (es ++ [.submitted order]) { g with nextOrderId := nextOrderId, orderQueue := queue }
      (unused.filter (· ≠ order.id)) := by
  have hitems := Fifo.tryPush_items hpush
  have hlt : order.id < nextOrderId := by
    rcases hfresh with hunused | ⟨heq, hlt⟩
    · exact (hn.waiting_new (List.mem_append_left _ hunused)).1.trans_le hnext
    · rwa [heq]
  have hnone : g.execHandler.orders order.id = none := by
    rcases hfresh with hunused | ⟨heq, -⟩
    · exact (hn.waiting_new (List.mem_append_left _ hunused)).2
    · cases ho : g.execHandler.orders order.id with
      | none => rfl
      | some o =>
        have := hn.bounded (show (g.execHandler.orders order.id).isSome by rw [ho]; rfl)
        omega
  have hroot : g.execHandler.childToParent order.id = none := by
    cases hc : g.execHandler.childToParent order.id with
    | none => rfl
    | some p =>
      have := hn.handler.childTracked hc
      rw [hnone] at this
      cases this
  have hnewId {o : Order} (ho : .submitted o ∈ es) : o.id ≠ order.id := by
    rintro heq
    rcases hfresh with hunused | ⟨heq', -⟩
    · exact (hn.submitted ho).2.1 (heq ▸ hunused)
    · have := (hn.submitted ho).1
      omega
  have hsubmitted {o : Order} : .submitted o ∈ es ++ [.submitted order] ↔ .submitted o ∈ es ∨ o = order := by
    simp
  have hwaiting : waiting { g with nextOrderId := nextOrderId, orderQueue := queue }
      (unused.filter (· ≠ order.id)) =
      unused.filter (· ≠ order.id) ++ (g.orderQueue.items.map Order.id ++ [order.id]) := by
    rw [waiting, hitems, List.map_append]
    rfl
  refine ⟨hn.handler, fun hsome => (hn.bounded hsome).trans_le hnext, ?_, fun {id} hid => ?_, ?_,
    fun {o} ho => ?_, fun {o} ho => ?_, fun {o o'} ho ho' hid => ?_, fun {o p} ho hp => ?_⟩
  · rw [hwaiting, ← List.append_assoc, ← List.concat_eq_append]
    have hold : (unused.filter (· ≠ order.id) ++ g.orderQueue.items.map Order.id).Nodup :=
      hn.waiting_nodup.sublist ((List.filter_sublist).append_right _)
    refine hold.concat fun hmem => ?_
    rcases List.mem_append.mp hmem with hmem | hmem
    · simp at hmem
    · obtain ⟨o, ho, hid⟩ := List.mem_map.mp hmem
      exact hnewId (hn.queued ho) hid
  · rw [hwaiting, ← List.append_assoc] at hid
    rcases List.mem_append.mp hid with hid | hid
    · have hmem : id ∈ waiting g unused := (List.filter_sublist.append_right _).subset hid
      exact ⟨(hn.waiting_new hmem).1.trans_le hnext, (hn.waiting_new hmem).2⟩
    · rw [List.mem_singleton.mp hid]
      exact ⟨hlt, hnone⟩
  · simp only [List.mem_append, List.mem_singleton, reduceCtorEq, or_false]
    exact hn.created
  · rcases hsubmitted.mp ho with ho | rfl
    · refine ⟨(hn.submitted ho).1.trans_le hnext, fun hmem => ?_, (hn.submitted ho).2.2⟩
      exact (hn.submitted ho).2.1 (List.mem_of_mem_filter hmem)
    · exact ⟨hlt, by simp, hroot⟩
  · rw [hitems] at ho
    rcases List.mem_append.mp ho with ho | ho
    · exact hsubmitted.mpr (.inl (hn.queued ho))
    · exact hsubmitted.mpr (.inr (List.mem_singleton.mp ho))
  · rcases hsubmitted.mp ho with hold | rfl
    · rcases hsubmitted.mp ho' with hold' | rfl
      · exact hn.once hold hold' hid
      · exact absurd hid (hnewId hold)
    · rcases hsubmitted.mp ho' with hold' | rfl
      · exact absurd hid.symm (hnewId hold')
      · rfl
  · rcases hsubmitted.mp ho with ho | rfl
    · exact hn.terms ho hp
    · rw [hnone] at hp
      cases hp

theorem allocate (hn : Numbered es g unused) :
    Numbered es { g with nextOrderId := g.nextOrderId + 1 } (g.nextOrderId :: unused) := by
  have hnone : g.execHandler.orders g.nextOrderId = none := by
    cases ho : g.execHandler.orders g.nextOrderId with
    | none => rfl
    | some o => exact absurd (hn.bounded (Option.isSome_of_eq_some ho)) (lt_irrefl _)
  refine ⟨hn.handler, fun hsome => (hn.bounded hsome).trans (Nat.lt_succ_self _),
    List.nodup_cons.mpr ⟨fun hmem => (hn.waiting_new hmem).1.ne rfl, hn.waiting_nodup⟩,
    fun {id} hid => ?_, hn.created, fun ho => ?_, hn.queued, hn.once, hn.terms⟩
  · rcases List.mem_cons.mp hid with rfl | hid
    · exact ⟨Nat.lt_succ_self _, hnone⟩
    · exact ⟨(hn.waiting_new hid).1.trans (Nat.lt_succ_self _), (hn.waiting_new hid).2⟩
  · refine ⟨(hn.submitted ho).1.trans (Nat.lt_succ_self _), fun hmem => ?_, (hn.submitted ho).2.2⟩
    rcases List.mem_cons.mp hmem with heq | hmem
    · exact (hn.submitted ho).1.ne heq
    · exact (hn.submitted ho).2.1 hmem

theorem admitted (hn : Numbered es g unused) (hr : Ready es g unused order) (engine : RoutingEngine)
    (limiter : RateLimiter) :
    Numbered (es ++ [.tracked (order.apply .submit)]) (g.admitted (order.apply .submit) engine limiter)
      unused := by
  have hid : (order.apply .submit).id = order.id := order.apply_id .submit
  have hother {id : ℕ} (hne : id ≠ order.id) :
      (g.admitted (order.apply .submit) engine limiter).execHandler.orders id = g.execHandler.orders id :=
    ExecutionHandler.trackOrder_other (by rw [hid]; exact hne)
  refine ⟨hn.handler.trackOrder, fun {id} hsome => ?_, hn.waiting_nodup, fun {id} hmem => ?_, ?_,
    fun ho => hn.submitted (by simpa using ho), fun ho => List.mem_append_left _ (hn.queued ho),
    fun ho ho' => hn.once (by simpa using ho) (by simpa using ho'), fun {o p} ho hp => ?_⟩
  · by_cases heq : id = order.id
    · rw [heq]
      exact hr.bounded
    · rw [hother heq] at hsome
      exact hn.bounded hsome
  · have hne : id ≠ order.id := fun heq => hr.taken (heq ▸ hmem)
    rw [hother hne]
    exact hn.waiting_new hmem
  · simp only [List.mem_append, List.mem_singleton, reduceCtorEq, or_false]
    exact hn.created
  · have hold : .submitted o ∈ es := by simpa using ho
    by_cases heq : o.id = order.id
    · have hself := ExecutionHandler.trackOrder_self (h := g.execHandler) (order.apply .submit)
      rw [hid, ← heq] at hself
      obtain rfl : order.apply .submit = p := Option.some.inj (hself.symm.trans hp)
      rw [Order.apply_type, Order.apply_tif]
      exact hr.terms hold heq
    · rw [hother heq] at hp
      exact hn.terms hold hp

theorem createChild (hn : Numbered es g unused) (hroot : IsRoot g order.id) (slice : Slice) :
    Numbered (es ++ [.childCreated order.id (Gateway.childOf order slice g.nextOrderId)])
      (g.createChild order slice) unused := by
  have hnone : g.execHandler.orders g.nextOrderId = none := by
    cases ho : g.execHandler.orders g.nextOrderId with
    | none => rfl
    | some o => exact absurd (hn.bounded (Option.isSome_of_eq_some ho)) (lt_irrefl _)
  have hother {id : ℕ} (hlt : id < g.nextOrderId) :
      (g.createChild order slice).execHandler.orders id = g.execHandler.orders id :=
    ExecutionHandler.trackChildOrder_other hlt.ne
  have hparent (c : ℕ) : (g.createChild order slice).execHandler.childToParent c =
      if c = g.nextOrderId then some order.id else g.execHandler.childToParent c :=
    ExecutionHandler.trackChildOrder_childToParent
  refine ⟨hn.handler.trackChildOrder hroot.tracked hroot.root hnone, fun {id} hsome => ?_,
    hn.waiting_nodup, fun {id} hmem => ?_, fun {p c} => ?_, fun {o} ho => ?_,
    fun ho => List.mem_append_left _ (hn.queued ho),
    fun ho ho' => hn.once (by simpa using ho) (by simpa using ho'), fun {o p} ho hp => ?_⟩
  · by_cases heq : id = g.nextOrderId
    · rw [heq]
      exact Nat.lt_succ_self _
    · have hsame : (g.createChild order slice).execHandler.orders id = g.execHandler.orders id :=
        ExecutionHandler.trackChildOrder_other heq
      rw [hsame] at hsome
      exact (hn.bounded hsome).trans (Nat.lt_succ_self _)
  · have hw := hn.waiting_new hmem
    rw [hother hw.1]
    exact ⟨hw.1.trans (Nat.lt_succ_self _), hw.2⟩
  · rw [hparent]
    simp only [List.mem_append, List.mem_singleton, Event.childCreated.injEq]
    split_ifs with hc
    · constructor
      · intro heq
        exact ⟨_, .inr ⟨(Option.some.inj heq).symm, rfl⟩, hc.symm⟩
      · rintro ⟨child, hold | ⟨rfl, rfl⟩, hid⟩
        · have hchild := hn.handler.childTracked (hn.created.mpr ⟨child, hold, hid⟩)
          rw [hc, hnone] at hchild
          cases hchild
        · rfl
    · rw [hn.created]
      refine exists_congr fun child => and_congr_left fun hid => ?_
      refine ⟨.inl, fun h => h.resolve_right ?_⟩
      rintro ⟨-, rfl⟩
      exact hc hid.symm
  · have hold := hn.submitted (o := o) (by simpa using ho)
    rw [hparent, if_neg hold.1.ne]
    exact ⟨hold.1.trans (Nat.lt_succ_self _), hold.2⟩
  · have hold : .submitted o ∈ es := by simpa using ho
    rw [hother (hn.submitted hold).1] at hp
    exact hn.terms hold hp

theorem createChild_root (hn : Numbered es g unused) (hroot : IsRoot g order.id) (slice : Slice) :
    IsRoot (g.createChild order slice) order.id := by
  have hlt := hn.bounded hroot.tracked
  refine ⟨?_, ?_⟩
  · have hsame : (g.createChild order slice).execHandler.orders order.id =
        g.execHandler.orders order.id := ExecutionHandler.trackChildOrder_other hlt.ne
    rw [hsame]
    exact hroot.tracked
  · have hparent : (g.createChild order slice).execHandler.childToParent order.id = _ :=
      ExecutionHandler.trackChildOrder_childToParent
    rw [hparent, Gateway.childOf_id, if_neg hlt.ne]
    exact hroot.root

theorem applyReport (hn : Numbered es g unused) (r : ExecutionReport) :
    Numbered es (g.applyReport r) unused := by
  obtain ⟨fills, heq⟩ := g.applyReport_frame (r := r)
  obtain ⟨orders, hframe⟩ := g.execHandler.onExecutionReport_frame r
  have hsome := hn.handler.report_isSome r
  have hparent : (g.execHandler.onExecutionReport r).1.childToParent = g.execHandler.childToParent := by
    rw [hframe]
  rw [heq]
  refine ⟨hn.handler.report r, fun hid => hn.bounded (by rwa [← hsome]), hn.waiting_nodup,
    fun {id} hid => ⟨(hn.waiting_new hid).1, ?_⟩, fun {p c} => ?_, fun ho => ?_, hn.queued, hn.once,
    fun {o p} ho hp => ?_⟩
  · rw [← Option.not_isSome_iff_eq_none, hsome, (hn.waiting_new hid).2]
    simp
  · rw [hparent]
    exact hn.created
  · rw [hparent]
    exact hn.submitted ho
  · obtain ⟨before, hbefore, hsame⟩ := hn.handler.report_before hp
    have hold := hn.terms ho hbefore
    obtain ⟨_, _, _, _, _, rfl⟩ := hsame
    exact hold

theorem reroute (hn : Numbered es g unused) {r : ExecutionReport} {parent : Order}
    (hdue : g.rerouteDue r = some parent) :
    Ready es (g.applyReport r) unused (Gateway.rerouteOrder parent) ∧ IsRoot (g.applyReport r) parent.id ∧
      (g.applyReport r).execHandler.orders parent.id = some parent := by
  obtain ⟨p, o, o', before, hr, -, rfl⟩ := Gateway.rerouteDue_cases hn.handler hdue
  obtain ⟨fills, heq⟩ := g.applyReport_frame (r := r)
  obtain ⟨orders, hframe⟩ := g.execHandler.onExecutionReport_frame r
  have hid : (g.execHandler.parentAfter r p o' before).id = p :=
    ExecutionHandler.sameTerms_parentAfter.id.trans (hn.handler.keyed hr.parent)
  have hfound : (g.applyReport r).execHandler.orders p =
      some (g.execHandler.parentAfter r p o' before) := by
    rw [heq]
    simp only
    rw [(hn.handler.onExecutionReport_child hr).1, ExecutionHandler.setOrder_self]
  have hroot : (g.applyReport r).execHandler.childToParent p = none := by
    rw [heq]
    simp only
    rw [hframe]
    exact hn.handler.parentNoChild hr.parentOf
  have hn' := hn.applyReport r
  rw [hid]
  refine ⟨⟨?_, ?_, ?_, fun {o} ho hoid => ?_⟩, ⟨by rw [hfound]; rfl, hroot⟩, hfound⟩
  · rw [Gateway.rerouteOrder, hid]
    exact hroot
  · rw [Gateway.rerouteOrder, hid]
    exact hn'.bounded (by rw [hfound]; rfl)
  · rw [Gateway.rerouteOrder, hid]
    intro hmem
    rw [(hn'.waiting_new hmem).2] at hfound
    cases hfound
  · have hterms := hn'.terms ho (p := g.execHandler.parentAfter r p o' before)
      (by rw [hoid, ← hfound, Gateway.rerouteOrder, hid])
    exact hterms

section Steps

variable [VenueAdapter V] {P : Platform}

theorem dispatchSlice (hn : Numbered es g unused) (order : Order) (hroot : IsRoot g order.id) (slice : Slice) :
    Numbered (es ++ (g.dispatchSlice order slice).2) (g.dispatchSlice order slice).1 unused ∧
      IsRoot (g.dispatchSlice order slice).1 order.id := by
  obtain ⟨sent, heq, hsent, hcalls⟩ := g.dispatchSlice_eq order slice
  have hcreated := hn.createChild hroot slice
  have hsame := hn.createChild_root hroot slice
  rw [heq, ← List.singleton_append, ← List.append_assoc]
  refine ⟨hcreated.calls hcalls fun e he => ?_, ?_⟩
  · rcases hsent e he with hreport | ⟨accepted, rfl⟩
    · cases e <;> first | exact hreport.elim | trivial
    · trivial
  · obtain ⟨venues, queue, heq⟩ := hcalls
    rw [heq]
    exact ⟨hsame.tracked, hsame.root⟩

/-- The rule for working on an order: what its tracking and each of its slices keep, while the ids are
in order. `Q` is what is known of all the events. -/
theorem processSingleOrder_invariant {I : List Event → Gateway V → Prop} {Q : Event → Prop} {t : Readings}
    (hn : Numbered es g unused) (hr : Ready es g unused order)
    (hrefused : g.passes order t = false → ∀ limiter, I es (g.limited limiter))
    (hadmitted : g.passes order t = true → ∀ engine limiter, I (es ++ [.tracked (order.apply .submit)])
      (g.admitted (order.apply .submit) engine limiter))
    (hslice : ∀ g' es' slice, slice ∈ g.slicesFor P order t →
      (∀ e ∈ (g'.dispatchSlice (order.apply .submit) slice).2, Q e) → Numbered es' g' unused →
      IsRoot g' order.id → I es' g' → I (es' ++ (g'.dispatchSlice (order.apply .submit) slice).2)
        (g'.dispatchSlice (order.apply .submit) slice).1)
    (hq : ∀ e ∈ (g.processSingleOrder P order t).2, Q e) :
    Numbered (es ++ (g.processSingleOrder P order t).2) (g.processSingleOrder P order t).1 unused ∧
      I (es ++ (g.processSingleOrder P order t).2) (g.processSingleOrder P order t).1 := by
  cases hpass : g.passes order t with
  | false =>
    obtain ⟨limiter, heq⟩ := Gateway.processSingleOrder_refused (P := P) hpass
    rw [heq, List.append_nil]
    exact ⟨hn.quiet rfl rfl le_rfl, hrefused hpass limiter⟩
  | true =>
    obtain ⟨engine, limiter, heq⟩ := Gateway.processSingleOrder_passed (P := P) hpass
    have hroot : IsRoot (g.admitted (order.apply .submit) engine limiter) order.id := by
      refine ⟨?_, hr.root⟩
      have hself := ExecutionHandler.trackOrder_self (h := g.execHandler) (order.apply .submit)
      rw [Order.apply_id] at hself
      rw [Gateway.admitted, hself]
      rfl
    have hslices := Gateway.dispatchSlices_invariant
      (fun g es => Numbered es g unused ∧ IsRoot g order.id ∧ I es g) Q (order.apply .submit)
      (g.slicesFor P order t) _
      (fun g' es' slice hm hq hi => by
        obtain ⟨hn', hroot'⟩ := hi.1.dispatchSlice (order.apply .submit)
          (by rw [Order.apply_id]; exact hi.2.1) slice
        rw [Order.apply_id] at hroot'
        exact ⟨hn', hroot', hslice g' es' slice hm hq hi.1 hi.2.1 hi.2.2⟩)
      ⟨hn.admitted hr engine limiter, hroot, hadmitted hpass engine limiter⟩
      fun e he => hq e (by rw [heq]; exact List.mem_cons_of_mem _ he)
    rw [heq]
    rw [List.append_assoc] at hslices
    exact ⟨hslices.1, hslices.2.2⟩

theorem processSingleOrder {t : Readings} (hn : Numbered es g unused) (order : Order)
    (hr : Ready es g unused order) :
    Numbered (es ++ (g.processSingleOrder P order t).2) (g.processSingleOrder P order t).1 unused :=
  (hn.processSingleOrder_invariant (I := fun _ _ => True) (Q := fun _ => True) hr (fun _ _ => trivial)
    (fun _ _ _ => trivial) (fun _ _ _ _ _ _ _ _ => trivial) fun _ _ => trivial).1

theorem processReport {t : Readings} (hn : Numbered es g unused) (r : ExecutionReport) :
    Numbered (es ++ (g.processReport P r t).2) (g.processReport P r t).1 unused := by
  have happlied := hn.applyReport r
  obtain ⟨done, hd, ⟨-, heq⟩ | ⟨parent, hdue, heq⟩⟩ := g.processReport_cases (P := P) r t
  · rw [heq]
    refine happlied.same rfl rfl le_rfl fun e he => ?_
    rcases List.mem_cons.mp he with rfl | he
    · trivial
    · obtain ⟨o, rfl⟩ := hd e he
      trivial
  · have hshown : Numbered (es ++ [.processed r (g.applies r)]) (g.applyReport r) unused :=
      happlied.same rfl rfl le_rfl (by simp [Event.NoId])
    obtain ⟨hready, -⟩ := hn.reroute hdue
    have hagain := hshown.processSingleOrder (P := P) (t := t) (Gateway.rerouteOrder parent)
      ⟨hready.root, hready.bounded, hready.taken, fun ho => hready.terms (by simpa using ho)⟩
    rw [heq]
    have hdone : ∀ e ∈ done, e.NoId := fun e he => by
      obtain ⟨o, rfl⟩ := hd e he
      trivial
    have hall := hagain.same rfl rfl le_rfl hdone
    simpa using hall

theorem step {s s' : System V} {a : Action V} {k : Trace (Action V) Event}
    (hn : Numbered k.events s.gateway s.unused) (hf : FreshIds k s a)
    (h : (System.machine P).step s a = some (s', es)) :
    Numbered (k.events ++ es) s'.gateway s'.unused := by
  cases System.step_effect h with
  | quiet hq =>
    rw [hq.unused]
    exact hn.same hq.execHandler hq.orderQueue hq.nextOrderId (by simp)
  | stopped hthread => exact hn.same rfl rfl le_rfl (by simp [Event.NoId])
  | allocated =>
    rw [List.append_nil]
    exact hn.allocate
  | @submitted request order nextOrderId queue hassign hpush =>
    unfold System.assignId at hassign
    split at hassign
    next hzero =>
      cases hassign
      exact hn.push hpush (Nat.le_succ _) (.inr ⟨rfl, Nat.lt_succ_self _⟩)
    next hown =>
      cases hassign
      exact hn.push hpush le_rfl (.inl ((hf _ rfl).resolve_left hown))
  | orderTaken t hthread hpop =>
    obtain ⟨hpopped, hready, -⟩ := hn.pop hpop
    exact hpopped.processSingleOrder _ hready
  | @cancelTaken request queue t =>
    obtain ⟨-, heq⟩ | ⟨-, es, heq, hcalls, hes⟩ := Gateway.processCancel_cases
      (g := { s.gateway with cancelQueue := queue }) request
    · rw [heq]
      exact hn.same rfl rfl le_rfl (by simp)
    · have hn' : Numbered k.events { s.gateway with cancelQueue := queue } s.unused :=
        hn.quiet rfl rfl le_rfl
      rw [heq]
      refine hn'.calls hcalls fun e he => ?_
      rcases List.mem_cons.mp he with rfl | he
      · trivial
      · have hreport := hes e he
        cases e <;> first | exact hreport.elim | trivial
  | @reportTaken report queue t hthread hpop =>
    have hn' : Numbered k.events { s.gateway with reportQueue := queue } s.unused :=
      hn.quiet rfl rfl le_rfl
    exact hn'.processReport report
  | venueRan hfound hrun => exact hn.same rfl rfl le_rfl (by simp)
  | notified houtbox =>
    obtain ⟨hcalls, hes⟩ := s.gateway.onExecutionReport_calls _
    refine hn.calls hcalls fun e he => ?_
    have hreport := hes e he
    cases e <;> first | exact hreport.elim | trivial

theorem step_submitted {s s' : System V} {a : Action V} {k : Trace (Action V) Event}
    (hn : Numbered k.events s.gateway s.unused) (hf : FreshIds k s a)
    (h : (System.machine P).step s a = some (s', es)) (ho : .submitted order ∈ es) :
    s.gateway.execHandler.orders order.id = none := by
  obtain ⟨hqueued, hsame⟩ := System.submitted_queued h ho
  have hwaiting : order.id ∈ waiting s'.gateway s'.unused :=
    List.mem_append_right _ (List.mem_map_of_mem hqueued)
  rw [← hsame]
  exact ((hn.step hf h).waiting_new hwaiting).2

theorem step_tracked {s s' : System V} {a : Action V} {id : ℕ} (hn : Numbered es s.gateway unused)
    (hid : (s.gateway.execHandler.orders id).isSome) (h : (System.machine P).step s a = some (s', es')) :
    (s'.gateway.execHandler.orders id).isSome := by
  have hset {h : ExecutionHandler} (ho : (h.orders id).isSome) (key : ℕ) (o : Order) :
      ((h.setOrder key o).orders id).isSome := by
    by_cases heq : id = key
    · rw [heq, ExecutionHandler.setOrder_self]
      rfl
    · rwa [ExecutionHandler.setOrder_other heq]
  have hcalls {g g' : Gateway V} (hc : g.VenueCalls g') (ho : (g.execHandler.orders id).isSome) :
      (g'.execHandler.orders id).isSome := by
    obtain ⟨_, _, rfl⟩ := hc
    exact ho
  have hsingle {g : Gateway V} {order : Order} {t : Readings} (ho : (g.execHandler.orders id).isSome) :
      ((g.processSingleOrder P order t).1.execHandler.orders id).isSome := by
    cases hpass : g.passes order t with
    | false =>
      obtain ⟨limiter, heq⟩ := Gateway.processSingleOrder_refused (P := P) hpass
      rw [heq]
      exact ho
    | true =>
      obtain ⟨engine, limiter, heq⟩ := Gateway.processSingleOrder_passed (P := P) hpass
      rw [heq]
      refine Gateway.dispatchSlices_invariant (fun g _ => (g.execHandler.orders id).isSome)
        (fun _ => True) _ _ [] (fun g es slice _ _ hi => ?_) (hset ho _ _) fun _ _ => trivial
      obtain ⟨sent, -, -, hsend⟩ := g.dispatchSlice_eq (order.apply .submit) slice
      exact hcalls hsend (hset hi _ _)
  cases System.step_effect h with
  | quiet hq =>
    rw [hq.execHandler]
    exact hid
  | stopped hthread => exact hid
  | allocated => exact hid
  | submitted hassign hpush => exact hid
  | orderTaken t hthread hpop => exact hsingle hid
  | @cancelTaken request queue t =>
    obtain ⟨-, heq⟩ | ⟨-, es, -, hcalled, -⟩ := Gateway.processCancel_cases
      (g := { s.gateway with cancelQueue := queue }) request
    · rw [heq]
      exact hid
    · exact hcalls hcalled hid
  | @reportTaken report queue t hthread hpop =>
    have happlied : (({ s.gateway with reportQueue := queue }.applyReport report).execHandler.orders
        id).isSome := by
      obtain ⟨fills, heq⟩ := { s.gateway with reportQueue := queue }.applyReport_frame (r := report)
      rw [heq, hn.handler.report_isSome]
      exact hid
    obtain ⟨done, -, ⟨-, heq⟩ | ⟨parent, -, heq⟩⟩ := Gateway.processReport_cases (P := P)
      (g := { s.gateway with reportQueue := queue }) report t
    · rw [heq]
      exact happlied
    · rw [heq]
      exact hsingle happlied
  | venueRan hfound hrun => exact hid
  | notified houtbox => exact hcalls (Gateway.onExecutionReport_calls _).1 hid

theorem system_reroute {s : System V} {a : Action V} {x : System.Reroute V}
    (hn : Numbered es s.gateway unused) (hx : x ∈ s.reroute a) :
    Numbered es x.gateway unused ∧ Ready es x.gateway unused (Gateway.rerouteOrder x.parent) ∧
      IsRoot x.gateway x.parent.id ∧ x.gateway.execHandler.orders x.parent.id = some x.parent := by
  unfold System.reroute at hx
  split at hx
  next t =>
    split_ifs at hx with hthread
    · split at hx
      next report queue hpop =>
        obtain ⟨parent, hdue, rfl⟩ := Option.map_eq_some_iff.mp hx
        have hn' : Numbered es { s.gateway with reportQueue := queue } unused := hn.quiet rfl rfl le_rfl
        exact ⟨hn'.applyReport report, hn'.reroute hdue⟩
      · cases hx
    · cases hx
  · cases hx

/-- The ids of every run whose clients keep to the ids they were given. -/
theorem of_reach {C : Machine.Guard (System V) (Action V) Event} {venues : ℕ → Option V}
    {engine : RoutingEngine} {md : MarketDataAggregator} {limits : RiskLimits}
    {symbolLimits : Symbol → Option RiskLimits} {limiter : RateLimiter} {h : Trace (Action V) Event}
    {s : System V} (hf : ∀ k t a, C k t a → FreshIds k t a)
    (hr : (System.machine P).Reach C
      (System.initialized venues engine md limits symbolLimits limiter) h s) :
    Numbered h.events s.gateway s.unused := by
  refine hr.invariant (I := fun h s => Numbered h.events s.gateway s.unused) ?_
    fun k t a u es hi hc hstep => ?_
  · exact initial
  · rw [Trace.events_append, Trace.events_single]
    exact hi.step (hf k t a hc) hstep

end Steps

end Numbered

end Klett.Sor
