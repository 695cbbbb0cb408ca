import Klett.Sor.GatewaySteps

namespace Klett.Sor.ReportDelivery

open Klett.Lib Klett.Sor.System

variable {V : Type}

def emitted (es : List Event) : List ExecutionReport :=
  es.filterMap fun
    | .reported report _ _ => some report
    | _ => none

def emittedRunning (es : List Event) : List ExecutionReport :=
  es.filterMap fun
    | .reported report true _ => some report
    | _ => none

def queued (es : List Event) : List ExecutionReport :=
  es.filterMap fun
    | .reported report _ true => some report
    | _ => none

def processed (es : List Event) : List ExecutionReport :=
  es.filterMap fun
    | .processed report _ => some report
    | _ => none

@[simp] theorem emitted_append (es es' : List Event) : emitted (es ++ es') = emitted es ++ emitted es' := by
  simp [emitted]

@[simp] theorem emittedRunning_append (es es' : List Event) :
    emittedRunning (es ++ es') = emittedRunning es ++ emittedRunning es' := by
  simp [emittedRunning]

@[simp] theorem queued_append (es es' : List Event) : queued (es ++ es') = queued es ++ queued es' := by
  simp [queued]

@[simp] theorem processed_append (es es' : List Event) :
    processed (es ++ es') = processed es ++ processed es' := by
  simp [processed]

theorem queued_sublist_emitted (es : List Event) : (queued es).Sublist (emitted es) := by
  induction es with
  | nil => exact List.Sublist.slnil
  | cons e es ih =>
    rw [← List.singleton_append, queued_append, emitted_append]
    refine List.Sublist.append ?_ ih
    rcases e with _ | _ | _ | _ | ⟨report, running, _ | _⟩ | _ | _ | _ | _ <;> simp [queued, emitted]

theorem emittedRunning_sublist_emitted (es : List Event) : (emittedRunning es).Sublist (emitted es) := by
  induction es with
  | nil => exact List.Sublist.slnil
  | cons e es ih =>
    rw [← List.singleton_append, emittedRunning_append, emitted_append]
    refine List.Sublist.append ?_ ih
    rcases e with _ | _ | _ | _ | ⟨report, _ | _, queued⟩ | _ | _ | _ | _ <;> simp [emittedRunning, emitted]

def Kept : Event → Prop
  | .reported _ _ queued => queued = true
  | _ => True

theorem kept_of_queued {es : List Event} (h : queued es = emitted es) : ∀ e ∈ es, Kept e := by
  induction es with
  | nil => simp
  | cons e es ih =>
    have hsplit : queued [e] = emitted [e] ∧ queued es = emitted es := by
      rw [← List.singleton_append, queued_append, emitted_append] at h
      have hfirst := (queued_sublist_emitted [e]).length_le
      have hrest := (queued_sublist_emitted es).length_le
      have hlength := congrArg List.length h
      rw [List.length_append, List.length_append] at hlength
      exact List.append_inj h (by omega)
    intro e' he
    rcases List.mem_cons.mp he with rfl | he
    · cases e' with
      | reported report running kept =>
        cases kept with
        | true => rfl
        | false => simp [queued, emitted] at hsplit
      | _ => trivial
    · exact ih hsplit.2 e' he

/-- Working on something that is not a report: the queue takes what fits of what venues hand over. -/
structure Delivers (g g' : Gateway V) (es : List Event) : Prop where
  running : g'.running = g.running
  items : g'.reportQueue.items = g.reportQueue.items ++ queued es
  unprocessed : processed es = []
  fits : g.reportQueue.items.length + (emitted es).length ≤ 8192 → queued es = emitted es
  stopped : g.running = false → emittedRunning es = []

variable {g g' g'' : Gateway V} {es es' : List Event}

theorem Delivers.same (hr : g'.running = g.running) (hq : g'.reportQueue = g.reportQueue) :
    Delivers g g' [] :=
  ⟨hr, by rw [hq]; simp [queued], rfl, fun _ => rfl, fun _ => rfl⟩

theorem Delivers.trans (h : Delivers g g' es) (h' : Delivers g' g'' es') : Delivers g g'' (es ++ es') := by
  refine ⟨h'.running.trans h.running, ?_, ?_, fun hfits => ?_, fun hstopped => ?_⟩
  · rw [h'.items, h.items, queued_append, List.append_assoc]
  · rw [processed_append, h.unprocessed, h'.unprocessed, List.append_nil]
  · rw [emitted_append, List.length_append] at hfits
    have hle := (queued_sublist_emitted es).length_le
    rw [queued_append, emitted_append, h.fits (by omega), h'.fits]
    rw [h.items, List.length_append]
    omega
  · rw [emittedRunning_append, h.stopped hstopped, h'.stopped (h.running.trans hstopped), List.append_nil]

theorem Delivers.starting (g : Gateway V) (h : Delivers g' g'' es) (hr : g'.running = g.running)
    (hq : g'.reportQueue = g.reportQueue) : Delivers g g'' es :=
  (Delivers.same hr hq).trans h

theorem Delivers.cons {e : Event} (h : Delivers g g' es) (he : emitted [e] = []) (hp : processed [e] = []) :
    Delivers g g' (e :: es) := by
  have hqueued : queued [e] = [] := List.sublist_nil.mp (he ▸ queued_sublist_emitted [e])
  have hrunning : emittedRunning [e] = [] := List.sublist_nil.mp (he ▸ emittedRunning_sublist_emitted [e])
  refine ⟨h.running, ?_, ?_, fun hfits => ?_, fun hstopped => ?_⟩
  · rw [h.items, ← List.singleton_append (l := es), queued_append, hqueued, List.nil_append]
  · rw [← List.singleton_append, processed_append, hp, h.unprocessed, List.append_nil]
  · rw [← List.singleton_append, emitted_append, he, List.nil_append] at hfits
    rw [← List.singleton_append, queued_append, emitted_append, hqueued, he, h.fits hfits]
  · rw [← List.singleton_append, emittedRunning_append, hrunning, h.stopped hstopped, List.append_nil]

theorem delivers_onExecutionReport (report : ExecutionReport) :
    Delivers g (g.onExecutionReport report).1 (g.onExecutionReport report).2 := by
  unfold Gateway.onExecutionReport
  split
  next queue hpush =>
    refine ⟨rfl, ?_, rfl, fun _ => rfl, fun hstopped => ?_⟩
    · exact Fifo.tryPush_items hpush
    · rw [hstopped]
      rfl
  next hfull =>
    refine ⟨rfl, by simp [queued], rfl, fun hfits => ?_, fun hstopped => ?_⟩
    · have hlen := Fifo.tryPush_eq_none.mp hfull
      simp only [emitted, List.filterMap_cons, List.filterMap_nil, List.length_singleton] at hfits
      omega
    · rw [hstopped]
      rfl

theorem delivers_onExecutionReports (reports : List ExecutionReport) :
    Delivers g (g.onExecutionReports reports).1 (g.onExecutionReports reports).2 := by
  induction reports generalizing g with
  | nil => exact .same rfl rfl
  | cons report reports ih => exact (delivers_onExecutionReport report).trans ih

variable [VenueAdapter V] {P : Platform} {order : Order} {t : Readings}

theorem delivers_sendChild (child : Order) (venueId : ℕ) :
    Delivers g (g.sendChild child venueId).1 (g.sendChild child venueId).2 := by
  unfold Gateway.sendChild
  split
  · exact .same rfl rfl
  next venue _ =>
    let sent := VenueAdapter.sendOrder venue child
    have hd := delivers_onExecutionReports (g := { g with
      venues := Function.update g.venues venueId (some sent.2.1) }) sent.2.2
    exact (hd.starting g rfl rfl).cons (e := .childSent child sent.1) rfl rfl

theorem delivers_dispatchSlices (slices : List Slice) :
    Delivers g (Gateway.dispatchSlices order g slices).1 (Gateway.dispatchSlices order g slices).2 := by
  induction slices generalizing g with
  | nil => exact .same rfl rfl
  | cons slice slices ih =>
    have hcreated : Delivers g (g.createChild order slice) [] := .same rfl rfl
    exact ((hcreated.trans (delivers_sendChild _ _)).cons rfl rfl).trans ih

variable (order t) in
theorem delivers_processSingleOrder :
    Delivers g (g.processSingleOrder P order t).1 (g.processSingleOrder P order t).2 := by
  cases hpass : g.passes order t with
  | false =>
    obtain ⟨limiter, heq⟩ := Gateway.processSingleOrder_refused (P := P) hpass
    rw [heq]
    exact .same rfl rfl
  | true =>
    obtain ⟨engine, limiter, heq⟩ := Gateway.processSingleOrder_passed (P := P) hpass
    rw [heq]
    have hadmitted : Delivers g (g.admitted (order.apply .submit) engine limiter) [] := .same rfl rfl
    exact (hadmitted.trans (delivers_dispatchSlices _)).cons rfl rfl

theorem delivers_cancelChildren (request : CancelRequest) (childIds : List ℕ) :
    Delivers g (Gateway.cancelChildren request g childIds).1 (Gateway.cancelChildren request g childIds).2 := by
  have hchild (g : Gateway V) (childId : ℕ) :
      Delivers g (g.cancelChild request childId).1 (g.cancelChild request childId).2 := by
    obtain heq | ⟨child, venue, -, -, -, heq⟩ := g.cancelChild_cases request childId
    · rw [heq]
      exact .same rfl rfl
    · rw [heq]
      exact (delivers_onExecutionReports _).starting g rfl rfl
  induction childIds generalizing g with
  | nil => exact .same rfl rfl
  | cons childId childIds ih => exact (hchild g childId).trans ih

theorem delivers_processCancel (request : CancelRequest) :
    Delivers g (g.processCancel request).1 (g.processCancel request).2 := by
  unfold Gateway.processCancel
  split
  · exact .same rfl rfl
  · exact (delivers_cancelChildren _ _).cons rfl rfl

theorem delivers_processReport (report : ExecutionReport) :
    ∃ es, (g.processReport P report t).2 = .processed report (g.applies report) :: es ∧
      Delivers g (g.processReport P report t).1 es := by
  obtain ⟨fills, happly⟩ := g.applyReport_frame (r := report)
  have happlied : Delivers g (g.applyReport report) [] := by
    rw [happly]
    exact .same rfl rfl
  have hdone {g' : Gateway V} {done : List Event} (hd : ∀ e ∈ done, ∃ o, e = .completed o) :
      Delivers g' g' done := by
    induction done with
    | nil => exact .same rfl rfl
    | cons e done ih =>
      obtain ⟨o, rfl⟩ := hd e List.mem_cons_self
      exact (ih fun e he => hd e (List.mem_cons_of_mem _ he)).cons rfl rfl
  obtain ⟨done, hd, ⟨-, heq⟩ | ⟨parent, -, heq⟩⟩ := g.processReport_cases (P := P) report t
  · exact ⟨done, by rw [heq], by rw [heq]; exact happlied.trans (hdone hd)⟩
  · exact ⟨_, by rw [heq]; rfl, by
      rw [heq]
      exact (happlied.trans (delivers_processSingleOrder _ _)).trans (hdone hd)⟩

/-- What the venues hand over in a step fits into the report queue, once the report that the step
takes out has left it. -/
def HasRoom (P : Platform) : Machine.Guard (System V) (Action V) Event := fun _ s a =>
  ∀ next ∈ (machine P).step s a, s.gateway.reportQueue.items.length +
    (emitted next.2).length ≤ 8192 + (processed next.2).length

/-- When the execution loop finds the gateway stopped and ends, the queue holds nothing that came
while the gateway was running. -/
def EndsDrained : Machine.Guard (System V) (Action V) Event := fun k s a =>
  a.isExecLoop = true → s.execThread = .head → s.gateway.running = false →
    ∀ report ∈ s.gateway.reportQueue.items, report ∉ emittedRunning k.events

instance (k : Trace (Action V) Event) (s : System V) (a : Action V) : Decidable (HasRoom P k s a) :=
  inferInstanceAs (Decidable (∀ next ∈ (machine P).step s a, _ ≤ _))

instance (k : Trace (Action V) Event) (s : System V) (a : Action V) : Decidable (EndsDrained k s a) :=
  inferInstanceAs (Decidable (_ → _ → _ → ∀ report ∈ s.gateway.reportQueue.items, _))

variable {s s' : System V} {a : Action V}

structure Handles (s s' : System V) (es : List Event) : Prop where
  items : processed es ++ s'.gateway.reportQueue.items = s.gateway.reportQueue.items ++ queued es
  fits : s.gateway.reportQueue.items.length + (emitted es).length ≤ 8192 + (processed es).length →
    queued es = emitted es
  running : emittedRunning es = [] ∨ s.gateway.running = true

omit [VenueAdapter V] in
theorem Delivers.handles (h : Delivers s.gateway s'.gateway es) : Handles s s' es := by
  refine ⟨by rw [h.unprocessed, h.items]; rfl, fun hfits => h.fits ?_, ?_⟩
  · rw [h.unprocessed] at hfits
    exact hfits
  · cases hrunning : s.gateway.running with
    | false => exact .inl (h.stopped hrunning)
    | true => exact .inr rfl

theorem step_handles (h : (machine P).step s a = some (s', es)) : Handles s s' es := by
  cases step_effect h with
  | quiet hq => exact ⟨by rw [hq.reportQueue]; simp [processed, queued], fun _ => rfl, .inl rfl⟩
  | stopped hthread => exact ⟨by simp [processed, queued], fun _ => rfl, .inl rfl⟩
  | allocated => exact ⟨by simp [processed, queued], fun _ => rfl, .inl rfl⟩
  | submitted hassign hpush => exact ⟨by simp [processed, queued], fun _ => rfl, .inl rfl⟩
  | @orderTaken order queue t hthread hpop =>
    have hd := delivers_processSingleOrder (P := P) (g := { s.gateway with orderQueue := queue }) order t
    exact (hd.starting s.gateway rfl rfl).handles
  | @cancelTaken request queue t =>
    have hd := delivers_processCancel (g := { s.gateway with cancelQueue := queue }) request
    exact (hd.starting s.gateway rfl rfl).handles
  | @reportTaken report queue t hthread hpop =>
    obtain ⟨es, heq, hd⟩ := delivers_processReport (P := P) (t := t)
      (g := { s.gateway with reportQueue := queue }) report
    have hitems := Fifo.tryPop_items hpop
    have hprocessed (applied : Bool) : processed (.processed report applied :: es) = [report] :=
      congrArg (report :: ·) hd.unprocessed
    rw [heq]
    refine ⟨?_, fun hfits => ?_, ?_⟩
    · rw [setGateway, hprocessed, hd.items, hitems]
      rfl
    · rw [hprocessed, hitems, List.length_singleton, List.length_cons] at hfits
      have hqueue : queue.items.length + (emitted es).length ≤ 8192 := by
        change _ + (emitted es).length ≤ _ at hfits
        omega
      exact hd.fits hqueue
    · cases hrunning : s.gateway.running with
      | false => exact .inl (hd.stopped hrunning)
      | true => exact .inr rfl
  | venueRan hfound hrun => exact ⟨by simp [processed, queued], fun _ => rfl, .inl rfl⟩
  | notified houtbox => exact (delivers_onExecutionReport _).handles

/-- A step that does not end the execution thread leaves it alive, or leaves it ended and the gateway
stopped. -/
theorem step_execThread (h : (machine P).step s a = some (s', es))
    (halive : s.gateway.running = true → s.execThread ≠ .exited) :
    (s'.gateway.running = true → s'.execThread ≠ .exited) ∧
      (s'.execThread = .exited → s.execThread = .exited ∨
        (∃ t, a = .execLoop t) ∧ s.execThread = .head ∧ s.gateway.running = false ∧
          s'.gateway = s.gateway ∧ es = []) := by
  have hkept (hr : s'.gateway.running = s.gateway.running) (ht : s'.execThread = s.execThread) :
      (s'.gateway.running = true → s'.execThread ≠ .exited) ∧
        (s'.execThread = .exited → s.execThread = .exited ∨
          (∃ t, a = .execLoop t) ∧ s.execThread = .head ∧ s.gateway.running = false ∧
            s'.gateway = s.gateway ∧ es = []) := by
    rw [hr, ht]
    exact ⟨halive, .inl⟩
  cases a with
  | start =>
    simp only [machine, step] at h
    split_ifs at h
    · cases h
      exact hkept rfl rfl
    · cases h
      exact ⟨fun _ => by simp, fun he => by cases he⟩
  | stop =>
    simp only [machine, step] at h
    split_ifs at h
    · cases h
      exact ⟨fun hr => (by cases hr), Or.inl⟩
    · cases h
      exact hkept rfl rfl
  | joinStop =>
    simp only [machine, step] at h
    split_ifs at h
    cases h
    exact hkept rfl rfl
  | submitOrder request =>
    obtain ⟨rfl, rfl⟩ : _ = s' ∧ _ = es := by simpa [machine, step, Prod.ext_iff] using h
    obtain ⟨nextOrderId, queue, unused, hframe⟩ := s.submitOrder_frame request
    rw [hframe] at hkept ⊢
    exact hkept rfl rfl
  | cancelOrder request =>
    cases h
    obtain ⟨queue, hframe⟩ := s.cancelOrder_frame request
    rw [hframe] at hkept ⊢
    exact hkept rfl rfl
  | orderLoop t =>
    simp only [machine, step, orderLoop] at h
    split at h
    · cases h
    · cases h
      exact hkept rfl rfl
    · split at h
      · cases h
        exact hkept rfl rfl
      · cases h
        exact hkept (delivers_processSingleOrder _ _).running rfl
    · split at h
      · cases h
        exact hkept rfl rfl
      · cases h
        exact hkept (delivers_processCancel _).running rfl
  | execLoop t =>
    simp only [machine, step, execLoop] at h
    split at h
    · cases h
    next hhead =>
      cases h
      refine ⟨fun hr => ?_, fun he => ?_⟩
      · simp only at hr
        simp [hr]
      · cases hr : s.gateway.running with
        | true => simp [hr] at he
        | false => exact .inr ⟨⟨t, rfl⟩, hhead, rfl, rfl, rfl⟩
    next hreports =>
      split at h
      · cases h
        exact ⟨fun _ => by simp, fun he => by cases he⟩
      · cases h
        obtain ⟨es, -, hd⟩ := delivers_processReport (P := P) (t := t) (g := { s.gateway with
          reportQueue := _ }) _
        exact hkept hd.running rfl
  | venue venueId op =>
    simp only [machine, step] at h
    split at h
    · cases h
    · obtain ⟨_, -, heq⟩ := Option.map_eq_some_iff.mp h
      cases heq
      exact hkept rfl rfl
  | notify venueId =>
    simp only [machine, step] at h
    split at h
    · cases h
    · cases h
      exact hkept (delivers_onExecutionReport _).running rfl
  | _ =>
    cases h
    exact hkept rfl rfl

structure Accounted (es : List Event) (s : System V) : Prop where
  accounts : s.gateway.reportQueue.Accounts (queued es) (processed es)
  kept : queued es = emitted es
  alive : s.gateway.running = true → s.execThread ≠ .exited
  drained : s.execThread = .exited → (emittedRunning es).Sublist (processed es)

omit [VenueAdapter V] in
theorem Accounted.sublist (h : Accounted es s) :
    (emittedRunning es).Sublist (processed es ++ s.gateway.reportQueue.items) := by
  have hsub := emittedRunning_sublist_emitted es
  rwa [← h.kept, show queued es = _ from h.accounts] at hsub

theorem Accounted.step {k : Trace (Action V) Event} (h : Accounted k.events s)
    (hroom : HasRoom P k s a) (hends : EndsDrained k s a)
    (hstep : (machine P).step s a = some (s', es)) : Accounted (k.events ++ es) s' := by
  have hh := step_handles hstep
  obtain ⟨halive, hexit⟩ := step_execThread hstep h.alive
  refine ⟨?_, ?_, halive, fun hexited => ?_⟩
  · rw [Fifo.Accounts, queued_append, processed_append, List.append_assoc, hh.items, ← List.append_assoc,
      show queued k.events = _ from h.accounts]
  · rw [queued_append, emitted_append, h.kept, hh.fits (hroom (s', es) hstep)]
  · rw [emittedRunning_append, processed_append]
    rcases hexit hexited with hbefore | ⟨⟨t, rfl⟩, hhead, hstopped, -, rfl⟩
    · have hstopped : emittedRunning es = [] :=
        hh.running.resolve_right fun hr => h.alive hr hbefore
      rw [hstopped, List.append_nil]
      exact (h.drained hbefore).trans (List.sublist_append_left _ _)
    · -- what came while the gateway ran is not in the queue any more, so it has been processed
      have hqueue : s.gateway.reportQueue.items.filter (· ∈ emittedRunning k.events) = [] :=
        List.filter_eq_nil_iff.mpr fun r hr => by simpa using hends rfl hhead hstopped r hr
      have hfilter := h.sublist.filter (· ∈ emittedRunning k.events)
      rw [List.filter_append, hqueue, List.append_nil, List.filter_eq_self.mpr (by simp)] at hfilter
      simpa [emittedRunning, processed] using hfilter.trans List.filter_sublist

/-- With room for every report and a drained queue at the end, no report is lost. -/
theorem reports_not_lost {venues : ℕ → Option V} {engine : RoutingEngine} {md : MarketDataAggregator}
    {limits : RiskLimits} {symbolLimits : Symbol → Option RiskLimits} {limiter : RateLimiter}
    {h : Trace (Action V) Event}
    (hr : (machine P).Reach (fun k s a => HasRoom P k s a ∧ EndsDrained k s a)
      (initialized venues engine md limits symbolLimits limiter) h s) :
    (emittedRunning h.events).Sublist (processed h.events ++ s.gateway.reportQueue.items) ∧
      ∀ (pre : Trace (Action V) Event) x post, h = pre ++ x :: post → Event.stopReturned ∈ x.2 →
        (emittedRunning pre.events).Sublist (processed pre.events) := by
  have hinv {k : Trace (Action V) Event} {t : System V}
      (hr : (machine P).Reach (fun k s a => HasRoom P k s a ∧ EndsDrained k s a)
        (initialized venues engine md limits symbolLimits limiter) k t) :
      Accounted k.events t := by
    refine hr.invariant (I := fun k t => Accounted k.events t) ?_ fun k t a u es hi hc hstep => ?_
    · exact ⟨rfl, rfl, fun hrunning => (by cases hrunning), fun _ => List.Sublist.slnil⟩
    · rw [Trace.events_append, Trace.events_single]
      exact hi.step hc.1 hc.2 hstep
  refine ⟨(hinv hr).sublist, fun pre x post hsplit hstop => ?_⟩
  exact hr.forall_entry (P := fun k x => Event.stopReturned ∈ x.2 →
    (emittedRunning k.events).Sublist (processed k.events)) (fun k t a u es hk _ hstep hmem =>
      (hinv hk).drained (stopReturned_exited hstep hmem)) pre x post hsplit hstop

def orderThreadEnds : List (Action SimulatedExchange) := [.orderLoop {}, .orderLoop {}, .orderLoop {}]

theorem reports_not_lost_one_order : ∃ h s, (machine .exact).Run calm h s ∧
    (emittedRunning h.events).length = 1 ∧ Event.stopReturned ∈ h.events ∧
      (emittedRunning h.events).Sublist (processed h.events ++ s.gateway.reportQueue.items) ∧
      ∀ (pre : Trace (Action SimulatedExchange) Event) x post, h = pre ++ x :: post →
        Event.stopReturned ∈ x.2 → (emittedRunning pre.events).Sublist (processed pre.events) := by
  obtain ⟨h, s, hr, hone, hstop⟩ := Machine.exists_reach (machine .exact)
    (fun k s a => HasRoom .exact k s a ∧ EndsDrained k s a) calm
    (fun h _ => (emittedRunning h.events).length = 1 ∧ Event.stopReturned ∈ h.events)
    (sending buyTen ++ [.execLoop {}, .execLoop {}, .execLoop {}, .stop, .execLoop {}] ++ orderThreadEnds ++
      [.joinStop]) (by decide +kernel)
  exact ⟨h, s, hr.run, hone, hstop, reports_not_lost hr⟩

/-- The execution thread sees that the gateway has stopped before it sees the acknowledgement. -/
theorem report_lost_at_stop : ∃ h s, (machine .exact).Run calm h s ∧
    Event.stopReturned ∈ h.events ∧ (emittedRunning h.events).length = 1 ∧ processed h.events = [] :=
  Machine.exists_run _ _ _ (sending buyTen ++ [.stop, .execLoop {}] ++ orderThreadEnds ++ [.joinStop])
    (by decide +kernel)

end Klett.Sor.ReportDelivery
