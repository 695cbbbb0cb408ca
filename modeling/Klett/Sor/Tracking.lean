import Mathlib.Data.Option.Basic
import Klett.Sor.ExecutionHandler

namespace Klett.Sor

namespace Order

def SameTerms (o o' : Order) : Prop :=
  ∃ filled remaining avg state version, o' = { o with
    filledQuantity := filled
    remainingQuantity := remaining
    avgFillPrice := avg
    state := state
    version := version }

variable {o o' o'' : Order} {r : ExecutionReport}

theorem SameTerms.refl (o : Order) : o.SameTerms o := ⟨_, _, _, _, _, rfl⟩

theorem SameTerms.trans (h : o.SameTerms o') (h' : o'.SameTerms o'') : o.SameTerms o'' := by
  obtain ⟨_, _, _, _, _, rfl⟩ := h
  obtain ⟨_, _, _, _, _, rfl⟩ := h'
  exact ⟨_, _, _, _, _, rfl⟩

theorem SameTerms.id (h : o.SameTerms o') : o'.id = o.id := by
  obtain ⟨_, _, _, _, _, rfl⟩ := h
  rfl

theorem SameTerms.quantity (h : o.SameTerms o') : o'.quantity = o.quantity := by
  obtain ⟨_, _, _, _, _, rfl⟩ := h
  rfl

theorem sameTerms_apply (o : Order) (e : OrderEvent) : o.SameTerms (o.apply e) := by
  obtain ⟨s, v, h⟩ := o.apply_eq e
  exact ⟨_, _, _, s, v, h⟩

theorem sameTerms_beforeCancel (o : Order) (s : OrderState) : o.SameTerms (o.beforeCancel s) := by
  unfold beforeCancel
  split
  · exact o.sameTerms_apply _
  · exact .refl o

theorem sameTerms_recordFill (o : Order) (r : ExecutionReport) : o.SameTerms (o.recordFill r) := by
  unfold recordFill
  split
  · exact ⟨_, _, _, _, _, rfl⟩
  · exact .refl o

theorem sameTerms_onReport (h : o.onReport r = some o') : o.SameTerms o' := by
  obtain ⟨event, -, rfl⟩ := Option.map_eq_some_iff.mp h
  exact ((o.sameTerms_beforeCancel _).trans (sameTerms_apply _ _)).trans (sameTerms_recordFill _ _)

theorem onReport_isTerminal (h : o.onReport r = some o') (hended : o.isTerminal = true) :
    o'.isTerminal = true := by
  obtain ⟨event, -, rfl⟩ := Option.map_eq_some_iff.mp h
  have hsame : o.beforeCancel r.state = o := by
    unfold beforeCancel
    rw [apply_of_terminal o _ hended, ite_self]
  rw [isTerminal, recordFill_state, hsame, apply_of_terminal o event hended]
  exact hended

theorem sameTerms_withTrade (o : Order) (r : ExecutionReport) : o.SameTerms (o.withTrade r) := by
  unfold withTrade
  split
  · exact ⟨_, _, _, _, _, rfl⟩
  · exact .refl o

theorem sameTerms_withRemaining (o : Order) (due : Bool) : o.SameTerms (o.withRemaining due) := by
  unfold withRemaining
  split
  · exact ⟨_, _, _, _, _, rfl⟩
  · exact .refl o

theorem sameTerms_withCompletion (o : Order) : o.SameTerms o.withCompletion := by
  unfold withCompletion
  split
  · exact ⟨_, _, _, _, _, rfl⟩
  · exact .refl o

theorem withTrade_filledQuantity (o : Order) (r : ExecutionReport) :
    (o.withTrade r).filledQuantity = o.filledQuantity + max 0 r.lastQuantity := by
  unfold withTrade
  split
  · simp only [updateFromChild]
    omega
  · omega

@[simp] theorem withRemaining_filledQuantity (o : Order) (due : Bool) :
    (o.withRemaining due).filledQuantity = o.filledQuantity := by
  cases due <;> rfl

@[simp] theorem withCompletion_filledQuantity (o : Order) :
    o.withCompletion.filledQuantity = o.filledQuantity := by
  unfold withCompletion
  split <;> rfl

@[simp] theorem withRemaining_isTerminal (o : Order) (due : Bool) :
    (o.withRemaining due).isTerminal = o.isTerminal := by
  cases due <;> rfl

@[simp] theorem withRemaining_isFull (o : Order) (due : Bool) : (o.withRemaining due).isFull = o.isFull := by
  cases due <;> rfl

theorem withCompletion_isTerminal (o : Order) :
    o.withCompletion.isTerminal = (o.isTerminal || o.isFull) := by
  unfold withCompletion
  split
  next h =>
    rw [h, Bool.or_true]
    rfl
  next h => rw [Bool.eq_false_iff.mpr h, Bool.or_false]

theorem withTrade_filled : (o.withTrade r).state = .filled ↔ o.state = .filled := by
  unfold withTrade updateFromChild
  cases hs : o.state <;> split <;> simp [hs]

theorem withRemaining_state (o : Order) (due : Bool) : (o.withRemaining due).state = o.state := by
  cases due <;> rfl

theorem withCompletion_filled : o.withCompletion.state = .filled ↔ o.state = .filled ∨ o.isFull = true := by
  unfold withCompletion
  split
  next h => simp [completed, h]
  next h => simp [h]

theorem withTrade_isFull : (o.withTrade r).isFull = true ↔
    o.quantity ≤ o.filledQuantity + max 0 r.lastQuantity := by
  rw [isFull, decide_eq_true_iff, withTrade_filledQuantity, (o.sameTerms_withTrade r).quantity]

theorem onReport_filled (h : o.onReport r = some o') (hs : o.state = .filled) : o'.state = .filled := by
  obtain ⟨event, -, rfl⟩ := Option.map_eq_some_iff.mp h
  have hsame : o.beforeCancel r.state = o := by simp [beforeCancel, hs]
  rw [hsame, recordFill_state, apply_of_terminal o event (by simp [isTerminal, OrderState.isTerminal, hs])]
  exact hs

theorem withTrade_remaining (h : o.remainingQuantity = o.leavesQty) :
    (o.withTrade r).remainingQuantity = (o.withTrade r).leavesQty := by
  unfold withTrade
  split
  · rfl
  · exact h

end Order

namespace ExecutionHandler

variable {h : ExecutionHandler} {r : ExecutionReport} {p c : ℕ} {o o' parent : Order}

/-- Orders are found under their own id, children and parents are different orders, both tracked, and
the two maps between them agree. -/
structure WellFormed (h : ExecutionHandler) : Prop where
  keyed : ∀ {id o}, h.orders id = some o → o.id = id
  childTracked : ∀ {c p}, h.childToParent c = some p → (h.orders c).isSome
  parentTracked : ∀ {c p}, h.childToParent c = some p → (h.orders p).isSome
  parentNoChild : ∀ {c p}, h.childToParent c = some p → h.childToParent p = none
  mem_children : ∀ {p c}, c ∈ h.getChildren p ↔ h.childToParent c = some p

structure Reports (h : ExecutionHandler) (r : ExecutionReport) (p : ℕ) (o o' parent : Order) : Prop where
  order : h.orders r.orderId = some o
  applied : o.onReport r = some o'
  parentOf : h.childToParent r.orderId = some p
  parent : h.orders p = some parent

def afterTrade (h : ExecutionHandler) (r : ExecutionReport) (p : ℕ) (o' parent : Order) : ExecutionHandler :=
  (h.setOrder r.orderId o').setOrder p (parent.withTrade r)

def dueAfter (h : ExecutionHandler) (r : ExecutionReport) (p : ℕ) (o' parent : Order) : Bool :=
  (h.afterTrade r p o' parent).rerouteDue o' (parent.withTrade r)

/-- Whether the report would make the parent due for a reroute, had it not turned the child Filled: the
parent stays open with something left, and no live child. -/
def strandsParent (h : ExecutionHandler) (r : ExecutionReport) : Bool :=
  match h.orders r.orderId, h.childToParent r.orderId with
  | some o, some p =>
    match o.onReport r, h.orders p with
    | some o', some parent =>
      o'.state = .filled && !(parent.withTrade r).isTerminal && (parent.withTrade r).leavesQty > 0 &&
        (h.afterTrade r p o' parent).allTerminal (parent.withTrade r).id
    | _, _ => false
  | _, _ => false

def parentAfter (h : ExecutionHandler) (r : ExecutionReport) (p : ℕ) (o' parent : Order) : Order :=
  ((parent.withTrade r).withRemaining (h.dueAfter r p o' parent)).withCompletion

theorem sameTerms_parentAfter : parent.SameTerms (h.parentAfter r p o' parent) :=
  ((parent.sameTerms_withTrade r).trans (Order.sameTerms_withRemaining _ _)).trans
    (Order.sameTerms_withCompletion _)

theorem parentAfter_filledQuantity :
    (h.parentAfter r p o' parent).filledQuantity = parent.filledQuantity + max 0 r.lastQuantity := by
  rw [parentAfter, Order.withCompletion_filledQuantity, Order.withRemaining_filledQuantity,
    Order.withTrade_filledQuantity]

theorem parentAfter_filled : (h.parentAfter r p o' parent).state = .filled ↔
    parent.state = .filled ∨ (parent.withTrade r).isFull = true := by
  rw [parentAfter, Order.withCompletion_filled, Order.withRemaining_isFull, Order.withRemaining_state,
    Order.withTrade_filled]

theorem parentAfter_remaining (hleft : parent.remainingQuantity = parent.leavesQty)
    (hle : parent.filledQuantity + max 0 r.lastQuantity ≤ parent.quantity) :
    (h.parentAfter r p o' parent).remainingQuantity = (h.parentAfter r p o' parent).leavesQty := by
  have hterms : parent.SameTerms (h.parentAfter r p o' parent) := h.sameTerms_parentAfter
  have hquantity := hterms.quantity
  rw [Order.leavesQty, hquantity, parentAfter_filledQuantity]
  have htrade := Order.withTrade_remaining (r := r) hleft
  rw [Order.leavesQty, Order.withTrade_filledQuantity, (parent.sameTerms_withTrade r).quantity] at htrade
  rw [parentAfter, Order.withCompletion]
  split
  next hfull =>
    rw [Order.withRemaining_isFull, Order.withTrade_isFull] at hfull
    simp only [Order.completed]
    omega
  next =>
    cases h.dueAfter r p o' parent with
    | true =>
      rw [Order.withRemaining, if_pos rfl, Order.leavesQty, Order.withTrade_filledQuantity,
        (parent.sameTerms_withTrade r).quantity]
    | false => exact htrade

/-- An ending child leaves its parent closed, or with a live child, or due for a reroute, or stranded. -/
theorem parentAfter_open (hr : h.Reports r p o o' parent) (hended : o'.isTerminal = true)
    (hopen : (h.parentAfter r p o' parent).isTerminal = false)
    (hall : (h.afterTrade r p o' parent).allTerminal (parent.withTrade r).id = true)
    (hstrands : h.strandsParent r = false) : h.dueAfter r p o' parent = true := by
  rw [parentAfter, Order.withCompletion_isTerminal, Order.withRemaining_isTerminal,
    Order.withRemaining_isFull, Bool.or_eq_false_iff] at hopen
  have hleft : 0 < (parent.withTrade r).leavesQty := by
    simp only [Order.leavesQty, Order.isFull, ge_iff_le, decide_eq_false_iff_not] at hopen ⊢
    omega
  have hstate : o'.state ≠ .filled := by
    intro hfilled
    simp [strandsParent, hr.order, hr.parentOf, hr.applied, hr.parent, hfilled, hopen.1, hleft, hall] at hstrands
  simp [dueAfter, rerouteDue, hended, hstate, hopen.1, hleft, hall]

theorem parentAfter_due (hd : h.dueAfter r p o' parent = true) :
    (h.parentAfter r p o' parent).remainingQuantity = (h.parentAfter r p o' parent).leavesQty ∧
      0 < (h.parentAfter r p o' parent).leavesQty ∧ (h.parentAfter r p o' parent).isTerminal = false := by
  have hdue := hd
  simp only [dueAfter, rerouteDue, Bool.and_eq_true, Bool.not_eq_true', decide_eq_true_eq] at hdue
  obtain ⟨⟨⟨-, hopen⟩, hleft⟩, -⟩ := hdue
  have hfull : (parent.withTrade r).isFull = false := by
    simp only [Order.leavesQty, Order.isFull, decide_eq_false_iff_not] at hleft ⊢
    omega
  have heq : h.parentAfter r p o' parent =
      { parent.withTrade r with remainingQuantity := (parent.withTrade r).leavesQty } := by
    rw [parentAfter, hd, Order.withCompletion, Order.withRemaining_isFull, hfull]
    rfl
  rw [heq]
  exact ⟨rfl, hleft, hopen⟩

theorem onExecutionReport_ignored (hi : ∀ o, h.orders r.orderId = some o → o.onReport r = none) :
    h.onExecutionReport r = (h, {}) := by
  unfold onExecutionReport
  cases ho : h.orders r.orderId with
  | none => rfl
  | some o => simp [hi o ho]

theorem exists_live_of_allTerminal (hall : h.allTerminal p = false) :
    ∃ c ∈ h.getChildren p, ∃ o, h.orders c = some o ∧ o.isTerminal = false := by
  obtain ⟨c, hc, hlive⟩ := List.all_eq_false.mp hall
  cases ho : h.orders c with
  | none => simp [ho] at hlive
  | some o => exact ⟨c, hc, o, ho, by simpa [ho] using hlive⟩

namespace WellFormed

theorem initial : ({} : ExecutionHandler).WellFormed := by
  constructor <;> simp [getChildren]

theorem ne_parent (hw : h.WellFormed) (hp : h.childToParent c = some p) : c ≠ p := by
  rintro rfl
  rw [hw.parentNoChild hp] at hp
  cases hp

theorem onExecutionReport_root (hw : h.WellFormed) (ho : h.orders r.orderId = some o)
    (hr : o.onReport r = some o') (hroot : h.childToParent r.orderId = none) :
    (h.onExecutionReport r).1 = h.setOrder r.orderId o' ∧ (h.onExecutionReport r).2.reroute = none := by
  have hid : o'.id = r.orderId := (Order.sameTerms_onReport hr).id.trans (hw.keyed ho)
  unfold onExecutionReport
  simp [ho, hr, hid, hroot]

theorem updateParent_child (hw : h.WellFormed) (hr : h.Reports r p o o' parent) :
    (h.setOrder r.orderId o').updateParent r.orderId p r =
      ((h.setOrder r.orderId o').setOrder p (h.parentAfter r p o' parent),
        if h.dueAfter r p o' parent && h.hasRerouteCallback then some p else none,
        if (parent.withTrade r).isFull && h.hasCompletionCallback then
          some ((parent.withTrade r).withRemaining (h.dueAfter r p o' parent)).completed else none) := by
  have hne := hw.ne_parent hr.parentOf
  have hpid : (parent.withTrade r).id = p := (parent.sameTerms_withTrade r).id.trans (hw.keyed hr.parent)
  have hfound : (h.setOrder r.orderId o').orders p = some parent :=
    (setOrder_other hne.symm o').trans hr.parent
  have hchild : (h.afterTrade r p o' parent).orders r.orderId = some o' :=
    (setOrder_other hne _).trans (setOrder_self _ _)
  unfold updateParent
  simp only [hfound]
  rw [← afterTrade, hchild]
  simp only [afterTrade, setOrder_setOrder, Order.withRemaining_isFull,
    (Order.sameTerms_withRemaining _ _).id, hpid]
  rfl

theorem onExecutionReport_child (hw : h.WellFormed) (hr : h.Reports r p o o' parent) :
    (h.onExecutionReport r).1 = (h.setOrder r.orderId o').setOrder p (h.parentAfter r p o' parent) ∧
      (h.onExecutionReport r).2.reroute =
        (if h.dueAfter r p o' parent && h.hasRerouteCallback then some p else none) ∧
      (h.onExecutionReport r).2.fill =
        (if r.lastQuantity > 0 ∧ h.hasFillCallback then some (o', r) else none) := by
  have hne := hw.ne_parent hr.parentOf
  have hid : o'.id = r.orderId := (Order.sameTerms_onReport hr.applied).id.trans (hw.keyed hr.order)
  unfold onExecutionReport
  simp only [hr.order, hr.applied, hid, setOrder_childToParent, hr.parentOf, hw.updateParent_child hr]
  refine ⟨trivial, trivial, ?_⟩
  rw [setOrder_other hne, setOrder_self]
  rfl

theorem completion_child (hw : h.WellFormed) (hr : h.Reports r p o o' parent) :
    (h.onExecutionReport r).2.completion = if (parent.withTrade r).isFull && h.hasCompletionCallback then
      some ((parent.withTrade r).withRemaining (h.dueAfter r p o' parent)).completed else none := by
  have hid : o'.id = r.orderId := (Order.sameTerms_onReport hr.applied).id.trans (hw.keyed hr.order)
  unfold onExecutionReport
  simp only [hr.order, hr.applied, hid, setOrder_childToParent, hr.parentOf, hw.updateParent_child hr]

theorem completion_root (hw : h.WellFormed) (ho : h.orders r.orderId = some o)
    (hr : o.onReport r = some o') (hroot : h.childToParent r.orderId = none) :
    (h.onExecutionReport r).2.completion =
      if o'.state = .filled ∧ h.hasCompletionCallback then some o' else none := by
  have hid : o'.id = r.orderId := (Order.sameTerms_onReport hr).id.trans (hw.keyed ho)
  unfold onExecutionReport
  simp only [ho, hr, hid, setOrder_childToParent, hroot]
  rfl

theorem report_cases (hw : h.WellFormed) (r : ExecutionReport) :
    (∀ o, h.orders r.orderId = some o → o.onReport r = none) ∨
      (∃ o o', h.orders r.orderId = some o ∧ o.onReport r = some o' ∧
        h.childToParent r.orderId = none) ∨
      ∃ p o o' parent, h.Reports r p o o' parent := by
  cases ho : h.orders r.orderId with
  | none => exact .inl fun o hsome => by cases hsome
  | some o =>
    cases hr : o.onReport r with
    | none => exact .inl fun o' hsome => by rw [← Option.some.inj hsome]; exact hr
    | some o' =>
      cases hp : h.childToParent r.orderId with
      | none => exact .inr (.inl ⟨o, o', rfl, hr, rfl⟩)
      | some p =>
        obtain ⟨parent, hparent⟩ := Option.isSome_iff_exists.mp (hw.parentTracked hp)
        exact .inr (.inr ⟨p, o, o', parent, ho, hr, hp, hparent⟩)

theorem setOrder (hw : h.WellFormed) (hid : o.id = c) : (h.setOrder c o).WellFormed := by
  have hsome {id : ℕ} (hid : (h.orders id).isSome) : ((h.setOrder c o).orders id).isSome := by
    by_cases heq : id = c
    · rw [heq, setOrder_self]
      rfl
    · rw [setOrder_other heq]
      exact hid
  refine ⟨fun {id o'} ho' => ?_, fun hc => hsome (hw.childTracked hc), fun hc => hsome (hw.parentTracked hc),
    hw.parentNoChild, hw.mem_children⟩
  by_cases heq : id = c
  · rw [heq, setOrder_self] at ho'
    rw [heq, ← Option.some.inj ho', hid]
  · rw [setOrder_other heq] at ho'
    exact hw.keyed ho'

theorem report (hw : h.WellFormed) (r : ExecutionReport) : (h.onExecutionReport r).1.WellFormed := by
  obtain hignored | ⟨o, o', ho, hr, hroot⟩ | ⟨p, o, o', parent, hr⟩ := hw.report_cases r
  · rw [onExecutionReport_ignored hignored]
    exact hw
  · rw [(hw.onExecutionReport_root ho hr hroot).1]
    exact hw.setOrder ((Order.sameTerms_onReport hr).id.trans (hw.keyed ho))
  · rw [(hw.onExecutionReport_child hr).1]
    have hchild := hw.setOrder ((Order.sameTerms_onReport hr.applied).id.trans (hw.keyed hr.order))
    exact hchild.setOrder (sameTerms_parentAfter.id.trans (hw.keyed hr.parent))

theorem report_terms (hw : h.WellFormed) (r : ExecutionReport) (id : ℕ) :
    Option.Rel Order.SameTerms (h.orders id) ((h.onExecutionReport r).1.orders id) := by
  have hrefl : ∀ x : Option Order, Option.Rel Order.SameTerms x x
    | none => .none
    | some o => .some (.refl o)
  obtain hignored | ⟨o, o', ho, hr, hroot⟩ | ⟨p, o, o', parent, hr⟩ := hw.report_cases r
  · rw [onExecutionReport_ignored hignored]
    exact hrefl _
  · rw [(hw.onExecutionReport_root ho hr hroot).1]
    by_cases hid : id = r.orderId
    · rw [hid, setOrder_self, ho]
      exact .some (Order.sameTerms_onReport hr)
    · rw [setOrder_other hid]
      exact hrefl _
  · rw [(hw.onExecutionReport_child hr).1]
    by_cases hp : id = p
    · rw [hp, setOrder_self, hr.parent]
      exact .some sameTerms_parentAfter
    · rw [setOrder_other hp]
      by_cases hid : id = r.orderId
      · rw [hid, setOrder_self, hr.order]
        exact .some (Order.sameTerms_onReport hr.applied)
      · rw [setOrder_other hid]
        exact hrefl _

theorem report_isSome (hw : h.WellFormed) (r : ExecutionReport) (id : ℕ) :
    ((h.onExecutionReport r).1.orders id).isSome = (h.orders id).isSome := by
  have hrel := hw.report_terms r id
  generalize h.orders id = before, (h.onExecutionReport r).1.orders id = after at hrel
  cases hrel <;> rfl

theorem report_before (hw : h.WellFormed) {id : ℕ} (ho : (h.onExecutionReport r).1.orders id = some o') :
    ∃ o, h.orders id = some o ∧ o.SameTerms o' := by
  have hrel := hw.report_terms r id
  rw [ho] at hrel
  generalize h.orders id = before at hrel
  cases hrel with
  | some hsame => exact ⟨_, rfl, hsame⟩

theorem trackOrder (hw : h.WellFormed) : (h.trackOrder o).WellFormed := by
  have hset := hw.setOrder (c := o.id) (o := o) rfl
  refine ⟨hset.keyed, hset.childTracked, hset.parentTracked, hset.parentNoChild, fun {p c} => ?_⟩
  rw [trackOrder_getChildren]
  exact hw.mem_children

theorem trackChildOrder (hw : h.WellFormed) (hp : (h.orders p).isSome)
    (hroot : h.childToParent p = none) (hnew : h.orders o.id = none) :
    (h.trackChildOrder p o).WellFormed := by
  have htracked {q : ℕ} (hq : (h.orders q).isSome) : q ≠ o.id := by
    rintro rfl
    rw [hnew] at hq
    cases hq
  have hset := hw.setOrder (c := o.id) (o := o) rfl
  refine ⟨hset.keyed, fun {c q} hc => ?_, fun {c q} hc => ?_, fun {c q} hc => ?_, fun {q c} => ?_⟩
  · rw [trackChildOrder_childToParent] at hc
    split_ifs at hc with hchild
    · rw [hchild, trackChildOrder_self]
      rfl
    · exact hset.childTracked hc
  · rw [trackChildOrder_childToParent] at hc
    split_ifs at hc with hchild
    · obtain rfl : p = q := Option.some.inj hc
      rw [trackChildOrder_other (htracked hp)]
      exact hp
    · exact hset.parentTracked hc
  · rw [trackChildOrder_childToParent] at hc
    split_ifs at hc with hchild
    · obtain rfl : p = q := Option.some.inj hc
      rw [trackChildOrder_childToParent, if_neg (htracked hp), hroot]
    · rw [trackChildOrder_childToParent, if_neg (htracked (hw.parentTracked hc)), hw.parentNoChild hc]
  · have hfree : h.childToParent o.id = none := by
      cases hc : h.childToParent o.id with
      | none => rfl
      | some q => exact absurd rfl (htracked (hw.childTracked hc))
    rw [trackChildOrder_getChildren, trackChildOrder_childToParent]
    split_ifs with hq hc hc
    · simp [hq, hc]
    · simp [hq, hc, hw.mem_children]
    · rw [hw.mem_children, hc, hfree]
      simp [Ne.symm hq]
    · exact hw.mem_children

end WellFormed

end ExecutionHandler

end Klett.Sor
