import Mathlib.Algebra.BigOperators.Group.List.Basic
import Mathlib.Data.List.Nodup
import Klett.Sor.ExchangeAgreement
import Klett.Sor.Tracking

namespace Klett.Sor.ExchangeRuns

open Klett.Lib SimulatedExchange
open ExchangeAgreement (Action about about_append about_append_other about_self about_other)

/-- What a client sees: the answers to its calls, and the reports. -/
inductive Event
  | sent (order : Order) (taken : Bool)
  | cancelAsked (request : CancelRequest) (taken : Bool)
  | reported (report : ExecutionReport)
  deriving DecidableEq

def machine (P : Platform) : Machine SimulatedExchange Action Event where
  step x
    | .connect => some (x.connect.2, [])
    | .disconnect => some (x.disconnect, [])
    | .sendOrder order =>
      let (taken, x, reports) := x.sendOrder order
      some (x, reports.map .reported ++ [.sent order taken])
    | .cancelOrder request =>
      let (taken, x) := x.cancelOrder request
      some (x, [.cancelAsked request taken])
    | .setMarketPrice bid ask => some (x.setMarketPrice bid ask, [])
    | .processMatching draws =>
      (x.processMatching P draws).map fun (x, reports) => (x, reports.map .reported)

def reportIn : Event → Option ExecutionReport
  | .reported r => some r
  | _ => none

def reportsIn (es : List Event) : List ExecutionReport := es.filterMap reportIn

/-- Orders are of positive quantity and unfilled, and an id is not used again once the exchange is done
with its order. -/
def NewOrders : Machine.Guard SimulatedExchange Action Event
  | k, x, .sendOrder order => 0 < order.quantity ∧ order.filledQuantity = 0 ∧
      ∀ r ∈ reportsIn k.events, r.orderId = order.id → (x.activeOrders order.id).isSome
  | _, _, _ => True

instance : ∀ k x a, Decidable (NewOrders k x a)
  | _, _, .sendOrder _ => inferInstanceAs (Decidable (_ ∧ _ ∧ _))
  | _, _, .connect | _, _, .disconnect | _, _, .cancelOrder _ | _, _, .setMarketPrice _ _
  | _, _, .processMatching _ => inferInstanceAs (Decidable True)

def IsFill (r : ExecutionReport) : Prop := r.state = .partiallyFilled ∨ r.state = .filled

instance (r : ExecutionReport) : Decidable (IsFill r) := inferInstanceAs (Decidable (_ ∨ _))

structure FillOf (o : Order) (filled : ℤ) (r : ExecutionReport) : Prop where
  pos : 0 < r.lastQuantity
  cumQuantity : r.cumQuantity = filled + r.lastQuantity
  le : r.cumQuantity ≤ o.quantity
  leavesQuantity : r.leavesQuantity = o.quantity - r.cumQuantity
  price : o.type ≠ .market → LimitPrice.Respects o.side o.price r.lastPrice

inductive Working (o : Order) : ℤ → List ExecutionReport → Prop
  | accepted {r} (hstate : r.state = .accepted) (hlast : r.lastQuantity = 0) : Working o 0 [r]
  | fill {filled rs r} (hw : Working o filled rs) (hstate : r.state = .partiallyFilled)
      (hf : FillOf o filled r) : Working o r.cumQuantity (rs ++ [r])

inductive Finished (o : Order) : List ExecutionReport → Prop
  | filled {filled rs r} (hw : Working o filled rs) (hstate : r.state = .filled) (hf : FillOf o filled r) :
      Finished o (rs ++ [r])
  | closed {filled rs r} (hw : Working o filled rs) (hstate : r.state = .canceled ∨ r.state = .rejected)
      (hlast : r.lastQuantity = 0) : Finished o (rs ++ [r])

/-- No fill of an order comes after a cancel of it that was taken. -/
def QuietAfter (e e' : Event) : Prop :=
  ∀ request r, e = .cancelAsked request true → e' = .reported r → r.orderId = request.orderId → ¬IsFill r

structure Kept (es : List Event) (x : SimulatedExchange) : Prop where
  nodup : x.pendingQueue.Nodup
  queued : ∀ id, id ∈ x.pendingQueue ↔ (x.activeOrders id).isSome
  active : ∀ {id internal}, x.activeOrders id = some internal → ∃ order, .sent order true ∈ es ∧
    order.id = id ∧ order.SameTerms internal.order ∧ 0 < internal.order.leavesQty ∧
    Working order internal.order.filledQuantity (about id (reportsIn es))
  finished : ∀ {order}, .sent order true ∈ es → x.activeOrders order.id = none →
    Finished order (about order.id (reportsIn es))
  once : ∀ {o o'}, .sent o true ∈ es → .sent o' true ∈ es → o.id = o'.id → o = o'
  known : ∀ r ∈ reportsIn es, ∃ order, .sent order true ∈ es ∧ order.id = r.orderId
  asked : ∀ {request}, .cancelAsked request true ∈ es →
    ∃ order, .sent order true ∈ es ∧ order.id = request.orderId
  pending : ∀ {request internal}, .cancelAsked request true ∈ es →
    x.activeOrders request.orderId = some internal → internal.pendingCancel = true
  quiet : es.Pairwise QuietAfter

variable {P : Platform} {x x' : SimulatedExchange} {es : List Event} {o order : Order} {filled : ℤ}
  {rs new : List ExecutionReport} {r : ExecutionReport} {id : ℕ} {internal : InternalOrder} {d : Draws}

theorem reportsIn_append (es es' : List Event) : reportsIn (es ++ es') = reportsIn es ++ reportsIn es' :=
  List.filterMap_append

theorem reportsIn_reported (rs : List ExecutionReport) : reportsIn (rs.map .reported) = rs := by
  rw [reportsIn, List.filterMap_map]
  exact List.filterMap_some

theorem Working.ne_nil (hw : Working o filled rs) : rs ≠ [] := by
  cases hw <;> simp

theorem Finished.ne_nil (hf : Finished o rs) : rs ≠ [] := by
  cases hf <;> simp

/-- A trade of the order as the exchange has it, told with the price and the rest, is a fill of the order
as it was sent. -/
theorem fillOf_filling {o' : Order} (hterms : order.SameTerms o) (hf : Filling o o' r)
    (hprice : x.executable o = some r.lastPrice) (hleaves : r.leavesQuantity = o.quantity - r.cumQuantity) :
    FillOf order o.filledQuantity r := by
  obtain ⟨avg, ho'⟩ := hf.order
  obtain ⟨_, _, _, _, _, rfl⟩ := hterms
  have hcum := hf.cumQuantity
  have hle := hf.lastQuantity_le
  simp only [Order.leavesQty] at hle
  rw [ho'] at hcum
  simp only at hcum
  constructor
  case pos => exact hf.lastQuantity_pos
  case cumQuantity => exact hcum
  case le => omega
  case leavesQuantity => exact hleaves
  case price => exact fun ht => executable_respects hprice ht

theorem working_turn {m : Matched} (hw : Working order o.filledQuantity rs) (hterms : order.SameTerms o)
    (hleft : 0 < o.leavesQty) (hout : Outcome x d o m)
    (htrades : ∀ r ∈ m.reports, 0 < r.lastQuantity →
      x.executable o = some r.lastPrice ∧ r.leavesQuantity = o.quantity - r.cumQuantity) :
    (∀ o' ∈ m.active, order.SameTerms o' ∧ 0 < o'.leavesQty ∧
      Working order o'.filledQuantity (rs ++ m.reports)) ∧
      (m.active = none → Finished order (rs ++ m.reports)) := by
  have hfill {o' : Order} {r : ExecutionReport} (hr : r ∈ m.reports) (hf : Filling o o' r) :
      FillOf order o.filledQuantity r :=
    have htold := htrades r hr hf.lastQuantity_pos
    fillOf_filling hterms hf htold.1 htold.2
  have hpart {o' : Order} {r : ExecutionReport} (hr : r ∈ m.reports) (hf : Filling o o' r)
      (hopen : 0 < o'.leavesQty) : Working order o'.filledQuantity (rs ++ [r]) := by
    rw [← hf.cumQuantity]
    refine .fill hw ?_ (hfill hr hf)
    rw [hf.state, if_neg hopen.ne']
  cases hout with
  | rests =>
    constructor
    · rintro o' ho'
      obtain rfl := Option.some.inj ho'
      rw [List.append_nil]
      exact ⟨hterms, hleft, hw⟩
    · intro hnone
      cases hnone
  | @closes r hr hwhy =>
    constructor
    · rintro o' ho'
      cases ho'
    · intro _
      exact .closed hw hr.state hr.lastQuantity
  | @fills o' r hf hfull =>
    constructor
    · rintro o'' ho''
      cases ho''
    · intro _
      refine .filled hw ?_ (hfill List.mem_cons_self hf)
      rw [hf.state, if_pos hfull]
  | @fillsPart o' r hf hopen hfok =>
    constructor
    · rintro o'' ho''
      obtain rfl := Option.some.inj ho''
      obtain ⟨avg, ho'⟩ := hf.order
      refine ⟨hterms.trans ⟨_, _, _, _, _, ho'⟩, hopen, hpart List.mem_cons_self hf hopen⟩
    · intro hnone
      cases hnone
  | @fillsPartAndCloses o' r c hf hopen hfok hc hstate =>
    constructor
    · rintro o'' ho''
      cases ho''
    · intro _
      have hclosed : Finished order (rs ++ [r] ++ [c]) :=
        .closed (hpart List.mem_cons_self hf hopen) (.inl hstate) hc.lastQuantity
      rwa [List.append_assoc] at hclosed

theorem accept_queue {queue : List ℕ} {active : ℕ → Option InternalOrder} (hnodup : queue.Nodup)
    (hqueued : ∀ k, k ∈ queue ↔ (active k).isSome) (hfree : active id = none) (internal : InternalOrder) :
    (queue ++ [id]).Nodup ∧ ∀ k, k ∈ queue ++ [id] ↔ (Function.update active id (some internal) k).isSome := by
  constructor
  · rw [List.nodup_append]
    refine ⟨hnodup, List.nodup_singleton _, ?_⟩
    intro a ha b hb
    rw [List.mem_singleton.mp hb]
    rintro rfl
    have hactive := (hqueued _).mp ha
    rw [hfree] at hactive
    cases hactive
  · intro k
    by_cases hid : k = id
    · simp [hid]
    · simp [hid, hqueued]

/-- After a turn the queue holds each active order once, as before it. -/
theorem settle_queue {queue : List ℕ} (hnodup : (id :: queue).Nodup)
    (hqueued : ∀ k, k ∈ id :: queue ↔ (x.activeOrders k).isSome) (internal : InternalOrder) (m : Matched) :
    ({ x with pendingQueue := queue }.settle id internal m).pendingQueue.Nodup ∧
      ∀ k, k ∈ ({ x with pendingQueue := queue }.settle id internal m).pendingQueue ↔
        (({ x with pendingQueue := queue }.settle id internal m).activeOrders k).isSome := by
  obtain ⟨hfront, hrest⟩ := List.nodup_cons.mp hnodup
  constructor
  · simp only [settle]
    split_ifs
    · rw [List.nodup_append]
      refine ⟨hrest, List.nodup_singleton _, ?_⟩
      intro a ha b hb
      rw [List.mem_singleton.mp hb]
      rintro rfl
      exact hfront ha
    · rw [List.append_nil]
      exact hrest
  · intro k
    by_cases hid : k = id
    · subst hid
      rw [settle_self]
      cases hm : m.active <;> simp [settle, hm, hfront]
    · have hold := hqueued k
      rw [List.mem_cons, or_iff_right hid] at hold
      rw [settle_other hid, ← hold]
      simp only [settle, List.mem_append]
      split_ifs <;> simp [hid]

theorem quiet_reported (h : es.Pairwise QuietAfter) (hnew : ∀ request, .cancelAsked request true ∈ es →
    ∀ r ∈ new, r.orderId = request.orderId → ¬IsFill r) : (es ++ new.map Event.reported).Pairwise QuietAfter := by
  rw [List.pairwise_append]
  refine ⟨h, ?_, ?_⟩
  · rw [List.pairwise_map]
    apply List.pairwise_of_forall
    intro r r' request s hasked
    cases hasked
  · rintro e he e' he' request r rfl rfl hid
    obtain ⟨s, hs, hsr⟩ := List.mem_map.mp he'
    obtain rfl := Event.reported.inj hsr
    exact hnew request he s hs hid

namespace Kept

theorem initial (config : ExchangeConfig) : Kept [] { config := config } := by
  constructor <;> simp [reportsIn]

theorem keyed (hk : Kept es x) : Keyed x := by
  intro id internal hactive
  obtain ⟨order, -, hid, hterms, -⟩ := hk.active hactive
  exact hterms.id.trans hid

/-- One more event that reports nothing, while no order comes, goes or changes its terms. -/
theorem recorded {e : Event} (hk : Kept es x) (hr : reportIn e = none) (hsent : ∀ order, e ≠ .sent order true)
    (hqueue : x'.pendingQueue = x.pendingQueue)
    (hactive : ∀ {id i}, x'.activeOrders id = some i → ∃ i', x.activeOrders id = some i' ∧ i.order = i'.order)
    (hnone : ∀ {id}, x'.activeOrders id = none ↔ x.activeOrders id = none)
    (hasked : ∀ {request}, e = .cancelAsked request true → ∃ o, .sent o true ∈ es ∧ o.id = request.orderId)
    (hpending : ∀ {request i}, .cancelAsked request true ∈ es ++ [e] →
      x'.activeOrders request.orderId = some i → i.pendingCancel = true) : Kept (es ++ [e]) x' := by
  have hreports : reportsIn (es ++ [e]) = reportsIn es := by
    rw [reportsIn_append, show reportsIn [e] = [] from List.filterMap_cons_none hr, List.append_nil]
  have hsame (order : Order) : .sent order true ∈ es ++ [e] ↔ .sent order true ∈ es := by
    rw [List.mem_append, List.mem_singleton, or_iff_left (hsent order).symm]
  constructor
  case nodup =>
    rw [hqueue]
    exact hk.nodup
  case queued =>
    intro id
    rw [hqueue, hk.queued, ← Option.ne_none_iff_isSome, ← Option.ne_none_iff_isSome, ne_eq, ne_eq, hnone]
  case active =>
    intro id i hi
    obtain ⟨i', hi', horder⟩ := hactive hi
    rw [hreports, horder]
    simp only [hsame]
    exact hk.active hi'
  case finished =>
    intro order ho hn
    rw [hreports]
    exact hk.finished ((hsame order).mp ho) (hnone.mp hn)
  case once =>
    intro o o' ho ho' hid
    exact hk.once ((hsame o).mp ho) ((hsame o').mp ho') hid
  case known =>
    rw [hreports]
    simp only [hsame]
    exact hk.known
  case asked =>
    intro request ha
    simp only [hsame]
    rcases List.mem_append.mp ha with ha | ha
    · exact hk.asked ha
    · exact hasked (List.mem_singleton.mp ha).symm
  case pending => exact hpending
  case quiet =>
    rw [List.pairwise_append]
    refine ⟨hk.quiet, List.pairwise_singleton _ _, ?_⟩
    intro e' _ e'' he'' request r _ hreported
    rw [List.mem_singleton.mp he''] at hreported
    rw [hreported] at hr
    cases hr

theorem silent {e : Event} (hk : Kept es x) (hr : reportIn e = none) (hsent : ∀ order, e ≠ .sent order true)
    (hasked : ∀ request, e ≠ .cancelAsked request true) : Kept (es ++ [e]) x := by
  apply hk.recorded hr hsent rfl (fun hi => ⟨_, hi, rfl⟩) Iff.rfl
  · intro request he
    exact absurd he (hasked request)
  · intro request i ha hi
    rcases List.mem_append.mp ha with ha | ha
    · exact hk.pending ha hi
    · exact absurd (List.mem_singleton.mp ha).symm (hasked request)

theorem frame (hk : Kept es x) (hq : x'.pendingQueue = x.pendingQueue)
    (ha : x'.activeOrders = x.activeOrders) : Kept es x' := by
  constructor
  case nodup =>
    rw [hq]
    exact hk.nodup
  case queued =>
    rw [hq, ha]
    exact hk.queued
  case active =>
    rw [ha]
    exact hk.active
  case finished =>
    rw [ha]
    exact hk.finished
  case once => exact hk.once
  case known => exact hk.known
  case asked => exact hk.asked
  case pending =>
    rw [ha]
    exact hk.pending
  case quiet => exact hk.quiet

theorem unused (hk : Kept es x) (hnone : x.activeOrders order.id = none)
    (hnew : ∀ r ∈ reportsIn es, r.orderId ≠ order.id) : ∀ o, .sent o true ∈ es → o.id ≠ order.id := by
  intro o ho hid
  have hf := hk.finished ho (by rw [hid]; exact hnone)
  rw [hid, about_other hnew] at hf
  exact hf.ne_nil rfl

theorem sendOrder (hk : Kept es x) (hquantity : 0 < order.quantity) (hfilled : order.filledQuantity = 0)
    (hnew : ∀ r ∈ reportsIn es, r.orderId = order.id → (x.activeOrders order.id).isSome) :
    Kept (es ++ ((x.sendOrder order).2.2.map .reported ++ [.sent order (x.sendOrder order).1]))
      (x.sendOrder order).2.1 := by
  obtain hsame | ⟨-, hfree, hsent⟩ := x.sendOrder_cases order
  · rw [hsame]
    exact hk.silent rfl (by simp) (by simp)
  have hunheard : ∀ r ∈ reportsIn es, r.orderId ≠ order.id := by
    intro r hr hid
    have hactive := hnew r hr hid
    rw [hfree] at hactive
    cases hactive
  have hunused := hk.unused hfree hunheard
  have hreports : reportsIn (es ++ [.reported (x.ackReport order), .sent order true]) =
      reportsIn es ++ [x.ackReport order] := by
    rw [reportsIn_append]
    rfl
  have hmem {o : Order} : .sent o true ∈ es ++ [.reported (x.ackReport order), .sent order true] ↔
      .sent o true ∈ es ∨ o = order := by
    simp
  have hasked {request : CancelRequest} :
      .cancelAsked request true ∈ es ++ [.reported (x.ackReport order), .sent order true] ↔
        .cancelAsked request true ∈ es := by
    simp
  have habout {id : ℕ} (hne : id ≠ order.id) :
      about id (reportsIn es ++ [x.ackReport order]) = about id (reportsIn es) :=
    about_append_other (by simpa [ackReport] using Ne.symm hne)
  have hself : about order.id (reportsIn es ++ [x.ackReport order]) = [x.ackReport order] := by
    rw [about_append, about_other hunheard, about_self (by simp [ackReport]), List.nil_append]
  have hnotAsked {request : CancelRequest} (ha : .cancelAsked request true ∈ es) :
      request.orderId ≠ order.id := by
    obtain ⟨o, ho, hid⟩ := hk.asked ha
    rw [← hid]
    exact hunused o ho
  have hset (id : ℕ) : (x.sendOrder order).2.1.activeOrders id =
      Function.update x.activeOrders order.id (some { order := order }) id := by rw [hsent]
  have hqueue : (x.sendOrder order).2.1.pendingQueue = x.pendingQueue ++ [order.id] := by rw [hsent]
  have hevents : (x.sendOrder order).2.2.map Event.reported ++ [Event.sent order (x.sendOrder order).1] =
      [Event.reported (x.ackReport order), Event.sent order true] := by
    rw [hsent]
    rfl
  rw [hevents]
  constructor
  case nodup =>
    rw [hqueue]
    exact (accept_queue hk.nodup hk.queued hfree { order := order }).1
  case queued =>
    intro id
    rw [hqueue, hset]
    exact (accept_queue hk.nodup hk.queued hfree { order := order }).2 id
  case active =>
    intro id internal hactive
    rw [hreports]
    simp only [hmem]
    by_cases hid : id = order.id
    · subst hid
      rw [hset, Function.update_self] at hactive
      obtain rfl := Option.some.inj hactive
      refine ⟨order, .inr rfl, rfl, .refl order, ?_, ?_⟩
      · rw [Order.leavesQty, hfilled, sub_zero]
        exact hquantity
      · rw [hself, hfilled]
        exact .accepted rfl rfl
    · rw [hset, Function.update_of_ne hid] at hactive
      rw [habout hid]
      obtain ⟨o, ho, hrest⟩ := hk.active hactive
      exact ⟨o, .inl ho, hrest⟩
  case finished =>
    intro o ho hnone
    rw [hreports]
    rcases hmem.mp ho with ho | rfl
    · have hne := hunused o ho
      rw [hset, Function.update_of_ne hne] at hnone
      rw [habout hne]
      exact hk.finished ho hnone
    · rw [hset, Function.update_self] at hnone
      cases hnone
  case once =>
    intro o o' ho ho' hid
    rcases hmem.mp ho with hold | rfl
    · rcases hmem.mp ho' with hold' | rfl
      · exact hk.once hold hold' hid
      · exact absurd hid (hunused o hold)
    · rcases hmem.mp ho' with hold' | rfl
      · exact absurd hid.symm (hunused o' hold')
      · rfl
  case known =>
    rw [hreports]
    simp only [hmem]
    intro r hr
    rcases List.mem_append.mp hr with hr | hr
    · obtain ⟨o, ho, hid⟩ := hk.known r hr
      exact ⟨o, .inl ho, hid⟩
    · rw [List.mem_singleton.mp hr]
      exact ⟨order, .inr rfl, rfl⟩
  case asked =>
    intro request ha
    simp only [hmem]
    obtain ⟨o, ho, hid⟩ := hk.asked (hasked.mp ha)
    exact ⟨o, .inl ho, hid⟩
  case pending =>
    intro request internal ha hactive
    rw [hset, Function.update_of_ne (hnotAsked (hasked.mp ha))] at hactive
    exact hk.pending (hasked.mp ha) hactive
  case quiet =>
    rw [List.pairwise_append]
    refine ⟨hk.quiet, ?_, ?_⟩
    · simp [QuietAfter]
    · intro e _ e' he' request r _ hreported _
      rcases List.mem_cons.mp he' with rfl | he'
      · obtain rfl := Event.reported.inj hreported
        simp [IsFill, ackReport]
      · rw [List.mem_singleton.mp he'] at hreported
        cases hreported

theorem cancelOrder (hk : Kept es x) (request : CancelRequest) :
    Kept (es ++ [.cancelAsked request (x.cancelOrder request).1]) (x.cancelOrder request).2 := by
  obtain hsame | ⟨internal, hfound, hset⟩ := x.cancelOrder_answers request
  · rw [hsame]
    exact hk.silent rfl (by simp) (by simp)
  have hself : (x.cancelOrder request).2.activeOrders request.orderId =
      some { internal with pendingCancel := true } := by
    rw [hset]
    exact Function.update_self ..
  have hother {id : ℕ} (hid : id ≠ request.orderId) :
      (x.cancelOrder request).2.activeOrders id = x.activeOrders id := by
    rw [hset]
    exact Function.update_of_ne hid ..
  apply hk.recorded
  case hr => rfl
  case hsent => simp
  case hqueue => rw [hset]
  case hactive =>
    intro id i hi
    by_cases hid : id = request.orderId
    · rw [hid, hself] at hi
      obtain rfl := Option.some.inj hi
      exact ⟨internal, hid ▸ hfound, rfl⟩
    · rw [hother hid] at hi
      exact ⟨i, hi, rfl⟩
  case hnone =>
    intro id
    by_cases hid : id = request.orderId
    · simp [hid, hself, hfound]
    · rw [hother hid]
  case hasked =>
    intro request' he
    obtain ⟨rfl, -⟩ := Event.cancelAsked.inj he
    obtain ⟨o, ho, hid, -⟩ := hk.active hfound
    exact ⟨o, ho, hid⟩
  case hpending =>
    intro request' i ha hi
    by_cases hid : request'.orderId = request.orderId
    · rw [hid, hself] at hi
      obtain rfl := Option.some.inj hi
      rfl
    · rw [hother hid] at hi
      rcases List.mem_append.mp ha with ha | ha
      · exact hk.pending ha hi
      · obtain ⟨rfl, -⟩ := Event.cancelAsked.inj (List.mem_singleton.mp ha)
        exact absurd rfl hid

theorem matchFront (hk : Kept es x) (h : x.matchFront P d = some (x', new)) :
    Kept (es ++ new.map .reported) x' := by
  have htrades := matchFront_trades h
  obtain ⟨queue, rfl, rfl, hqueue⟩ | ⟨id, queue, internal, m, hqueue, hfound, rfl, rfl, hout, hcancel⟩ :=
    matchFront_cases h
  · obtain hsame | ⟨id, hfront, hnone⟩ := hqueue
    · rw [List.map_nil, List.append_nil]
      exact hk.frame hsame.symm rfl
    · have hactive := (hk.queued id).mp (by rw [hfront]; exact List.mem_cons_self)
      rw [hnone] at hactive
      cases hactive
  -- the order at the front has a turn
  obtain ⟨order, ho, rfl, hterms, hleft, hw⟩ := hk.active hfound
  have hqueue' := settle_queue (hqueue ▸ hk.nodup) (fun k => hqueue ▸ hk.queued k) internal m
  have htold : ∀ r ∈ m.reports, 0 < r.lastQuantity → x.executable internal.order = some r.lastPrice ∧
      r.leavesQuantity = internal.order.quantity - r.cumQuantity := by
    intro r hr hlast
    obtain ⟨k, i, hhead, hi, -, hprice, hleaves⟩ := htrades r hr hlast
    rw [hqueue] at hhead
    obtain rfl := Option.some.inj hhead
    obtain rfl := Option.some.inj (hfound.symm.trans hi)
    exact ⟨hprice, hleaves⟩
  obtain ⟨hlive, hdone⟩ := working_turn hw hterms hleft hout htold
  have hids : ∀ r ∈ m.reports, r.orderId = order.id := fun r hr =>
    (hout.id_eq.2 r hr).trans hterms.id
  have hreports : reportsIn (es ++ m.reports.map .reported) = reportsIn es ++ m.reports := by
    rw [reportsIn_append, reportsIn_reported]
  have hself : about order.id (reportsIn es ++ m.reports) = about order.id (reportsIn es) ++ m.reports := by
    rw [about_append, about_self hids]
  have hother {k : ℕ} (hne : k ≠ order.id) :
      about k (reportsIn es ++ m.reports) = about k (reportsIn es) :=
    about_append_other fun r hr heq => hne (heq.symm.trans (hids r hr))
  have hmem {o : Order} : .sent o true ∈ es ++ m.reports.map .reported ↔ .sent o true ∈ es := by
    simp
  have hasked {request : CancelRequest} :
      .cancelAsked request true ∈ es ++ m.reports.map .reported ↔ .cancelAsked request true ∈ es := by
    simp
  constructor
  case nodup => exact hqueue'.1
  case queued => exact hqueue'.2
  case active =>
    intro k i hi
    rw [hreports]
    simp only [hmem]
    by_cases hid : k = order.id
    · subst hid
      rw [settle_self] at hi
      obtain ⟨o', ho', rfl⟩ := Option.map_eq_some_iff.mp hi
      obtain ⟨hterms', hleft', hw'⟩ := hlive o' ho'
      rw [hself]
      exact ⟨order, ho, rfl, hterms', hleft', hw'⟩
    · rw [settle_other hid] at hi
      rw [hother hid]
      exact hk.active hi
  case finished =>
    intro o ho' hnone
    rw [hreports]
    have ho' := hmem.mp ho'
    by_cases hid : o.id = order.id
    · obtain rfl := hk.once ho' ho hid
      rw [settle_self, Option.map_eq_none_iff] at hnone
      rw [hself]
      exact hdone hnone
    · rw [settle_other hid] at hnone
      rw [hother hid]
      exact hk.finished ho' hnone
  case once =>
    intro o o' ho ho' hid
    exact hk.once (hmem.mp ho) (hmem.mp ho') hid
  case known =>
    rw [hreports]
    simp only [hmem]
    intro r hr
    rcases List.mem_append.mp hr with hr | hr
    · exact hk.known r hr
    · exact ⟨order, ho, (hids r hr).symm⟩
  case asked =>
    intro request ha
    simp only [hmem]
    exact hk.asked (hasked.mp ha)
  case pending =>
    intro request i ha hi
    have ha := hasked.mp ha
    by_cases hid : request.orderId = order.id
    · rw [hid, settle_self] at hi
      obtain ⟨o', -, rfl⟩ := Option.map_eq_some_iff.mp hi
      have hpending : internal.pendingCancel = true := hk.pending ha (by rw [hid]; exact hfound)
      exact hpending
    · rw [settle_other hid] at hi
      exact hk.pending ha hi
  case quiet =>
    refine quiet_reported hk.quiet fun request he r hr hid hfill => ?_
    have hpending := hk.pending he (by rw [← hid, hids r hr]; exact hfound)
    obtain hclear | ⟨c, rfl, hstate⟩ := hcancel
    · rw [hpending] at hclear
      cases hclear
    · rw [List.mem_singleton.mp hr] at hfill
      simp [IsFill, hstate] at hfill

theorem leavesQty_pos (hk : Kept es x) :
    ∀ id internal, x.activeOrders id = some internal → 0 < internal.order.leavesQty := by
  intro id internal hactive
  obtain ⟨-, -, -, -, hleft, -⟩ := hk.active hactive
  exact hleft

theorem processMatching_isSome (hk : Kept es x) (draws : ℕ → Draws) :
    (x.processMatching P draws).isSome := by
  apply matchTurns_isSome (J := fun x => ∃ es, Kept es x)
  · rintro x d ⟨es, hk⟩
    have hsome := matchFront_isSome (P := P) (d := d) hk.leavesQty_pos
    obtain ⟨⟨x', new⟩, hfront⟩ := Option.isSome_iff_exists.mp hsome
    exact ⟨x', new, hfront, _, hk.matchFront hfront⟩
  · exact ⟨es, hk⟩

theorem step {k : Trace Action Event} {a : Action} (hk : Kept k.events x) (hg : NewOrders k x a)
    (h : (machine P).step x a = some (x', es)) : Kept (k.events ++ es) x' := by
  cases a with
  | connect =>
    cases h
    rw [List.append_nil]
    refine hk.frame ?_ ?_ <;> (unfold connect; split_ifs <;> rfl)
  | disconnect =>
    cases h
    rw [List.append_nil]
    exact hk.frame rfl rfl
  | setMarketPrice bid ask =>
    cases h
    rw [List.append_nil]
    exact hk.frame rfl rfl
  | sendOrder order =>
    cases h
    exact hk.sendOrder hg.1 hg.2.1 hg.2.2
  | cancelOrder request =>
    cases h
    exact hk.cancelOrder request
  | processMatching draws =>
    obtain ⟨⟨y, new⟩, hmatched, heq⟩ := Option.map_eq_some_iff.mp h
    cases heq
    have hloop := matchTurns_invariant (I := fun x new => Kept (k.events ++ new.map .reported) x) []
      (fun x d x' before new hi _ hfront => by
        rw [List.map_append, ← List.append_assoc]
        exact hi.matchFront hfront) (by simpa using hk) (turnsMeet_true _ _ _) hmatched
    simpa using hloop

end Kept

structure Accounts (o : Order) (before : List ExecutionReport) (r : ExecutionReport) : Prop where
  cumQuantity : r.cumQuantity = ((before ++ [r]).map fun r => r.lastQuantity).sum
  le : r.cumQuantity ≤ o.quantity
  leavesQuantity : r.leavesQuantity = o.quantity - r.cumQuantity
  price : o.type ≠ .market → LimitPrice.Respects o.side o.price r.lastPrice

structure Told (o : Order) (rs : List ExecutionReport) : Prop where
  shape : ∃ ack partials ending, rs = ack :: partials ++ ending ∧ ack.state = .accepted ∧
    (∀ r ∈ partials, r.state = .partiallyFilled) ∧
    (ending = [] ∨ ∃ last, ending = [last] ∧ last.state.isTerminal = true)
  fills : ∀ pre r post, rs = pre ++ r :: post → IsFill r → Accounts o pre r

theorem fills_append (hsum : (rs.map fun r => r.lastQuantity).sum = filled)
    (hold : ∀ pre s post, rs = pre ++ s :: post → IsFill s → Accounts o pre s)
    (hnew : IsFill r → FillOf o filled r) :
    ∀ pre s post, rs ++ [r] = pre ++ s :: post → IsFill s → Accounts o pre s := by
  intro pre s post hsplit hs
  rcases List.eq_nil_or_concat' post with rfl | ⟨front, last, rfl⟩
  · obtain ⟨rfl, hr⟩ := List.append_inj' hsplit rfl
    obtain rfl := List.singleton_inj.mp hr
    have hf := hnew hs
    refine ⟨?_, hf.le, hf.leavesQuantity, hf.price⟩
    rw [List.map_append, List.sum_append, hsum, hf.cumQuantity]
    simp
  · apply hold pre s front _ hs
    rw [← List.cons_append, ← List.append_assoc] at hsplit
    exact (List.append_inj' hsplit rfl).1

theorem told_working (hw : Working o filled rs) :
    (rs.map fun r => r.lastQuantity).sum = filled ∧ Told o rs ∧
      ∃ ack partials, rs = ack :: partials ∧ ack.state = .accepted ∧
        ∀ r ∈ partials, r.state = .partiallyFilled := by
  induction hw with
  | @accepted r hstate hlast =>
    refine ⟨by simpa using hlast, ⟨?_, ?_⟩, r, [], rfl, hstate, by simp⟩
    · exact ⟨r, [], [], rfl, hstate, by simp, .inl rfl⟩
    · have hnone : (([] : List ExecutionReport).map fun r => r.lastQuantity).sum = 0 := rfl
      apply fills_append hnone
      · simp
      · intro hfill
        simp [IsFill, hstate] at hfill
  | @fill filled rs r hw hstate hf ih =>
    obtain ⟨hsum, htold, ack, partials, rfl, hack, hpartials⟩ := ih
    have hall : ∀ s ∈ partials ++ [r], s.state = .partiallyFilled := by
      intro s hs
      rcases List.mem_append.mp hs with hs | hs
      · exact hpartials s hs
      · rw [List.mem_singleton.mp hs]
        exact hstate
    refine ⟨?_, ⟨?_, fills_append hsum htold.fills fun _ => hf⟩, ack, partials ++ [r], rfl, hack, hall⟩
    · rw [List.map_append, List.sum_append, hsum, hf.cumQuantity]
      simp
    · exact ⟨ack, partials ++ [r], [], (List.append_nil _).symm, hack, hall, .inl rfl⟩

theorem told_finished (hf : Finished o rs) : Told o rs := by
  cases hf with
  | @filled filled rs r hw hstate hfill =>
    obtain ⟨hsum, htold, ack, partials, rfl, hack, hpartials⟩ := told_working hw
    constructor
    · exact ⟨ack, partials, [r], rfl, hack, hpartials, .inr ⟨r, rfl, by rw [hstate]; rfl⟩⟩
    · exact fills_append hsum htold.fills fun _ => hfill
  | @closed filled rs r hw hstate hlast =>
    obtain ⟨hsum, htold, ack, partials, rfl, hack, hpartials⟩ := told_working hw
    constructor
    · refine ⟨ack, partials, [r], rfl, hack, hpartials, .inr ⟨r, rfl, ?_⟩⟩
      rcases hstate with hs | hs <;> rw [hs] <;> rfl
    · refine fills_append hsum htold.fills fun hfill => ?_
      rcases hstate with hs | hs <;> simp [IsFill, hs] at hfill

/-- What holds of the exchange in every run on new orders: its queue holds each active order once, every
report belongs to an order it took and tells that order's story, a cancel it took ends the fills,
and no step stops at the assertion. -/
theorem exchange_run_invariant {config : ExchangeConfig} {k : Trace Action Event}
    (hr : (machine P).Reach NewOrders { config := config } k x) :
    (∀ id, (x.activeOrders id).isSome → x.pendingQueue.count id = 1) ∧
      (∀ r ∈ reportsIn k.events, ∃ order, .sent order true ∈ k.events ∧ order.id = r.orderId) ∧
      (∀ order, .sent order true ∈ k.events → Told order (about order.id (reportsIn k.events))) ∧
      (∀ pre request post, k.events = pre ++ .cancelAsked request true :: post →
        ∀ r ∈ reportsIn post, r.orderId = request.orderId → ¬IsFill r) ∧
      ∀ a, ((machine P).step x a).isSome := by
  have hk : Kept k.events x := by
    refine hr.invariant (I := fun k x => Kept k.events x) (.initial config) ?_
    intro k x a x' es hk hg hstep
    rw [Trace.events_append, Trace.events_single]
    exact hk.step hg hstep
  refine ⟨?_, hk.known, ?_, ?_, ?_⟩
  · intro id hactive
    exact List.count_eq_one_of_mem hk.nodup ((hk.queued id).mpr hactive)
  · intro order ho
    cases hactive : x.activeOrders order.id with
    | none => exact told_finished (hk.finished ho hactive)
    | some internal =>
      obtain ⟨order', ho', hid, -, -, hw⟩ := hk.active hactive
      rw [hk.once ho ho' hid.symm] at hw ⊢
      exact (told_working hw).2.1
  · intro pre request post hsplit r hmem hid
    have hquiet := hk.quiet
    rw [hsplit, List.pairwise_append, List.pairwise_cons] at hquiet
    obtain ⟨e, he, hreport⟩ := List.mem_filterMap.mp hmem
    cases e with
    | reported s =>
      obtain rfl := Option.some.inj hreport
      exact hquiet.2.1.1 _ he request s rfl rfl hid
    | _ => cases hreport
  · intro a
    cases a with
    | processMatching draws =>
      rw [machine, Option.isSome_map]
      exact hk.processMatching_isSome draws
    | _ => rfl

def halfCanceled : List Action :=
  [.connect, ExchangeAgreement.quote, .sendOrder ExchangeAgreement.tenLots,
    .processMatching ExchangeAgreement.halfFill, .cancelOrder { orderId := 7 },
    .processMatching ExchangeAgreement.fullFill]

theorem exchange_run_invariant_canceled : ∃ k x, (machine .exact).Run {} k x ∧
    (reportsIn k.events).length = 3 ∧ Told ExchangeAgreement.tenLots (about 7 (reportsIn k.events)) := by
  obtain ⟨k, x, hr, hsent, hlength⟩ := Machine.exists_reach (machine .exact) NewOrders {}
    (fun k _ => .sent ExchangeAgreement.tenLots true ∈ k.events ∧ (reportsIn k.events).length = 3)
    halfCanceled (by decide +kernel)
  obtain ⟨-, -, htold, -⟩ := exchange_run_invariant hr
  exact ⟨k, x, hr.run, hlength, htold _ hsent⟩

end Klett.Sor.ExchangeRuns
