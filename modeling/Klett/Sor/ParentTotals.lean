import Mathlib.Algebra.BigOperators.Group.List.Basic
import Mathlib.Algebra.Order.BigOperators.Group.List
import Mathlib.Algebra.Order.Group.Int
import Mathlib.Algebra.Ring.Int.Defs
import Mathlib.Data.List.Induction
import Mathlib.Data.List.Nodup
import Klett.Lib.Machine
import Klett.Sor.HandlerCalls

namespace Klett.Sor

namespace ExecutionHandler

variable {h h' : ExecutionHandler} {m m' : Order → ℤ} {c p q : ℕ} {o o' : Order}

def sumOver (h : ExecutionHandler) (m : Order → ℤ) (p : ℕ) : ℤ :=
  ((h.getChildren p).map fun c => (h.orders c).elim 0 m).sum

theorem sumOver_congr (hc : h'.getChildren p = h.getChildren p)
    (ho : ∀ c ∈ h.getChildren p, h'.orders c = h.orders c) : h'.sumOver m p = h.sumOver m p := by
  unfold sumOver
  rw [hc]
  congr 1
  apply List.map_congr_left
  intro c hmem
  rw [ho c hmem]

theorem sumOver_other (hmem : c ∉ h.getChildren p) : (h.setOrder c o).sumOver m p = h.sumOver m p := by
  refine sumOver_congr rfl ?_
  intro d hd
  apply setOrder_other
  rintro rfl
  exact hmem hd

theorem sumOver_setOrder (hnodup : (h.getChildren p).Nodup) (hmem : c ∈ h.getChildren p)
    (ho : h.orders c = some o) : (h.setOrder c o').sumOver m p = h.sumOver m p - m o + m o' := by
  have hrest : ((h.getChildren p).erase c).map (fun d => ((h.setOrder c o').orders d).elim 0 m) =
      ((h.getChildren p).erase c).map fun d => (h.orders d).elim 0 m := by
    apply List.map_congr_left
    intro d hd
    rw [setOrder_other (hnodup.mem_erase_iff.mp hd).1]
  unfold sumOver
  rw [setOrder_getChildren, ← List.sum_map_erase (fun d => ((h.setOrder c o').orders d).elim 0 m) hmem,
    ← List.sum_map_erase (fun d => (h.orders d).elim 0 m) hmem, hrest, setOrder_self, ho]
  simp only [Option.elim_some]
  omega

theorem sumOver_le (hle : ∀ c ∈ h.getChildren p, ∀ o ∈ h.orders c, m o ≤ m' o) :
    h.sumOver m p ≤ h.sumOver m' p := by
  apply List.sum_le_sum
  intro c hc
  cases ho : h.orders c with
  | none => exact le_rfl
  | some o => exact hle c hc o ho

theorem sumOver_trackOrder (hnew : o.id ∉ h.getChildren p) :
    (h.trackOrder o).sumOver m p = h.sumOver m p := by
  apply sumOver_congr (trackOrder_getChildren o p)
  intro c hc
  apply trackOrder_other
  rintro rfl
  exact hnew hc

theorem sumOver_trackChildOrder (hnew : o.id ∉ h.getChildren p) :
    (h.trackChildOrder q o).sumOver m p = if p = q then h.sumOver m p + m o else h.sumOver m p := by
  have hold : ∀ c ∈ h.getChildren p, (h.trackChildOrder q o).orders c = h.orders c := by
    intro c hc
    apply trackChildOrder_other
    rintro rfl
    exact hnew hc
  split_ifs with hp
  · subst hp
    have hmap : (h.getChildren p).map (fun c => ((h.trackChildOrder p o).orders c).elim 0 m) =
        (h.getChildren p).map fun c => (h.orders c).elim 0 m := by
      apply List.map_congr_left
      intro c hc
      rw [hold c hc]
    unfold sumOver
    rw [trackChildOrder_getChildren, if_pos rfl, List.map_append, List.sum_append, hmap]
    simp
  · apply sumOver_congr _ hold
    rw [trackChildOrder_getChildren, if_neg hp]

end ExecutionHandler

namespace ParentTotals

open Klett.Lib ExecutionHandler HandlerCalls

def machine : Machine ExecutionHandler Call Deferred where
  step h call := some (next h call, [(perform h call).2])

def reportOf : Call → Option ExecutionReport
  | .report r => some r
  | _ => none

def reportsOf (k : Trace Call Deferred) : List ExecutionReport := k.filterMap fun entry => reportOf entry.1

def cumSoFar (id : ℕ) (reports : List ExecutionReport) : ℤ :=
  reports.foldl (fun cum r => if r.orderId = id ∧ 0 < r.lastQuantity then r.cumQuantity else cum) 0

/-- Each order is tracked once and unfilled, the children within their parent; reports are about
children, and their trades add up. -/
def Streams : Machine.Guard ExecutionHandler Call Deferred
  | _, h, .trackOrder parent => h.orders parent.id = none ∧ parent.filledQuantity = 0 ∧
      parent.remainingQuantity = parent.quantity
  | _, h, .trackChildOrder p child => h.childToParent p = none ∧ h.orders child.id = none ∧
      child.filledQuantity = 0 ∧ 0 ≤ child.quantity ∧
      ∃ parent ∈ h.orders p, h.sumOver (fun c => c.quantity) p + child.quantity ≤ parent.quantity
  | k, h, .report r => (h.childToParent r.orderId).isSome ∧ (0 < r.lastQuantity →
      (r.state = .partiallyFilled ∨ r.state = .filled) ∧
      r.cumQuantity = cumSoFar r.orderId (reportsOf k) + r.lastQuantity ∧
      ∃ child ∈ h.orders r.orderId, r.cumQuantity ≤ child.quantity)

instance {P : Order → Prop} [DecidablePred P] (o : Option Order) : Decidable (∃ x ∈ o, P x) :=
  decidable_of_iff (o.any (fun x => P x) = true) (by cases o <;> simp)

instance : ∀ k h a, Decidable (Streams k h a)
  | _, _, .trackOrder _ => inferInstanceAs (Decidable (_ ∧ _ ∧ _))
  | _, _, .trackChildOrder _ _ => inferInstanceAs (Decidable (_ ∧ _ ∧ _ ∧ _ ∧ _))
  | _, _, .report _ => inferInstanceAs (Decidable (_ ∧ (_ → _ ∧ _ ∧ _)))

def Heard (h : ExecutionHandler) (p : ℕ) (reports : List ExecutionReport) : Prop :=
  ∃ r ∈ reports, (reportEvent r.state).isSome ∧ h.childToParent r.orderId = some p

structure Summed (reports : List ExecutionReport) (h : ExecutionHandler) : Prop where
  handler : h.WellFormed
  nodup : ∀ p, (h.getChildren p).Nodup
  known : ∀ r ∈ reports, (h.childToParent r.orderId).isSome
  child : ∀ {c p o}, h.childToParent c = some p → h.orders c = some o →
    o.filledQuantity = cumSoFar c reports ∧ o.filledQuantity ≤ o.quantity
  filled : ∀ {p parent}, h.childToParent p = none → h.orders p = some parent →
    parent.filledQuantity = h.sumOver (fun c => c.filledQuantity) p
  remaining : ∀ {p parent}, h.childToParent p = none → h.orders p = some parent →
    parent.remainingQuantity = parent.leavesQty
  within : ∀ {p parent}, h.childToParent p = none → h.orders p = some parent → h.getChildren p ≠ [] →
    h.sumOver (fun c => c.quantity) p ≤ parent.quantity
  settled : ∀ {p parent}, h.childToParent p = none → h.orders p = some parent →
    parent.filledQuantity = parent.quantity →
    parent.state = .filled ∨ parent.quantity = 0 ∧ ¬Heard h p reports

variable {reports : List ExecutionReport} {h : ExecutionHandler} {r : ExecutionReport} {c p q : ℕ}
  {o o' parent child : Order}

theorem cumSoFar_append (id : ℕ) (reports : List ExecutionReport) (r : ExecutionReport) :
    cumSoFar id (reports ++ [r]) =
      if r.orderId = id ∧ 0 < r.lastQuantity then r.cumQuantity else cumSoFar id reports := by
  simp [cumSoFar]

theorem cumSoFar_of_unknown {id : ℕ} (hne : ∀ r ∈ reports, r.orderId ≠ id) : cumSoFar id reports = 0 := by
  induction reports using List.reverseRecOn with
  | nil => rfl
  | append_singleton reports r ih =>
    rw [cumSoFar_append, if_neg fun hcond => hne r (by simp) hcond.1]
    exact ih fun s hs => hne s (List.mem_append_left _ hs)

namespace Summed

theorem initial (fill completion reroute : Bool) : Summed []
    { hasFillCallback := fill
      hasCompletionCallback := completion
      hasRerouteCallback := reroute } := by
  constructor
  case handler => constructor <;> simp [getChildren]
  all_goals simp [getChildren]

theorem childless (hs : Summed reports h) (hnone : h.orders p = none) : h.getChildren p = [] := by
  rw [List.eq_nil_iff_forall_not_mem]
  intro c hc
  have htracked := hs.handler.parentTracked (hs.handler.mem_children.mp hc)
  rw [hnone] at htracked
  cases htracked

theorem not_child (hs : Summed reports h) (hnone : h.orders c = none) : h.childToParent c = none := by
  cases hp : h.childToParent c with
  | none => rfl
  | some p =>
    have htracked := hs.handler.childTracked hp
    rw [hnone] at htracked
    cases htracked

theorem not_mem_children (hs : Summed reports h) (hnone : h.childToParent c = none) (p : ℕ) :
    c ∉ h.getChildren p := by
  intro hc
  rw [hs.handler.mem_children.mp hc] at hnone
  cases hnone

theorem trackOrder (hs : Summed reports h) (hnew : h.orders parent.id = none)
    (hfilled : parent.filledQuantity = 0) (hleft : parent.remainingQuantity = parent.quantity) :
    Summed reports (h.trackOrder parent) := by
  have hroot := hs.not_child hnew
  have hchildren := hs.childless hnew
  have hsum (m : Order → ℤ) (p : ℕ) : (h.trackOrder parent).sumOver m p = h.sumOver m p :=
    sumOver_trackOrder (hs.not_mem_children hroot p)
  have hempty (m : Order → ℤ) : h.sumOver m parent.id = 0 := by
    rw [sumOver, hchildren]
    rfl
  -- the new order, or one that was there
  have hcases {p : ℕ} {o : Order} (ho : (h.trackOrder parent).orders p = some o) :
      (p = parent.id ∧ o = parent) ∨ h.orders p = some o := by
    by_cases hp : p = parent.id
    · rw [hp, trackOrder_self] at ho
      exact .inl ⟨hp, (Option.some.inj ho).symm⟩
    · rw [trackOrder_other hp] at ho
      exact .inr ho
  constructor
  case handler => exact hs.handler.trackOrder
  case nodup =>
    intro p
    rw [trackOrder_getChildren]
    exact hs.nodup p
  case known => exact hs.known
  case child =>
    intro c p o hc ho
    obtain ⟨rfl, rfl⟩ | ho := hcases ho
    · rw [trackOrder_childToParent, hroot] at hc
      cases hc
    · exact hs.child hc ho
  case filled =>
    intro p o hp ho
    rw [hsum]
    obtain ⟨rfl, rfl⟩ | ho := hcases ho
    · rw [hempty, hfilled]
    · exact hs.filled hp ho
  case remaining =>
    intro p o hp ho
    obtain ⟨rfl, rfl⟩ | ho := hcases ho
    · rw [Order.leavesQty, hfilled, hleft, sub_zero]
    · exact hs.remaining hp ho
  case within =>
    intro p o hp ho hsome
    rw [trackOrder_getChildren] at hsome
    rw [hsum]
    obtain ⟨rfl, rfl⟩ | ho := hcases ho
    · exact absurd hchildren hsome
    · exact hs.within hp ho hsome
  case settled =>
    intro p o hp ho hfull
    obtain ⟨rfl, rfl⟩ | ho := hcases ho
    · refine .inr ⟨by omega, ?_⟩
      rintro ⟨r, -, -, hr⟩
      have hmem := hs.handler.mem_children.mpr hr
      rw [hchildren] at hmem
      cases hmem
    · exact hs.settled hp ho hfull

theorem trackChildOrder (hs : Summed reports h) (hroot : h.childToParent q = none)
    (hnew : h.orders child.id = none) (hfilled : child.filledQuantity = 0) (hnonneg : 0 ≤ child.quantity)
    (hparent : h.orders q = some parent)
    (hfits : h.sumOver (fun c => c.quantity) q + child.quantity ≤ parent.quantity) :
    Summed reports (h.trackChildOrder q child) := by
  have hfree := hs.not_child hnew
  have hsum (m : Order → ℤ) (p : ℕ) : (h.trackChildOrder q child).sumOver m p =
      if p = q then h.sumOver m p + m child else h.sumOver m p :=
    sumOver_trackChildOrder (hs.not_mem_children hfree p)
  have hunknown : ∀ r ∈ reports, r.orderId ≠ child.id := by
    rintro r hr heq
    have hknown := hs.known r hr
    rw [heq, hfree] at hknown
    cases hknown
  have hparentOf {c : ℕ} (hne : c ≠ child.id) :
      (h.trackChildOrder q child).childToParent c = h.childToParent c := by
    rw [trackChildOrder_childToParent, if_neg hne]
  -- a root is an order that was there, and was a root
  have hold {p : ℕ} {o : Order} (hp : (h.trackChildOrder q child).childToParent p = none)
      (ho : (h.trackChildOrder q child).orders p = some o) :
      h.childToParent p = none ∧ h.orders p = some o := by
    have hne : p ≠ child.id := by
      rintro rfl
      rw [trackChildOrder_childToParent, if_pos rfl] at hp
      cases hp
    rw [hparentOf hne] at hp
    rw [trackChildOrder_other hne] at ho
    exact ⟨hp, ho⟩
  constructor
  case handler => exact hs.handler.trackChildOrder (Option.isSome_of_eq_some hparent) hroot hnew
  case nodup =>
    intro p
    rw [trackChildOrder_getChildren]
    split_ifs with hp
    · rw [List.nodup_append]
      refine ⟨hs.nodup q, List.nodup_singleton _, ?_⟩
      intro c hc d hd
      rw [List.mem_singleton.mp hd]
      rintro rfl
      exact hs.not_mem_children hfree q hc
    · exact hs.nodup p
  case known =>
    intro r hr
    rw [hparentOf (hunknown r hr)]
    exact hs.known r hr
  case child =>
    intro c p o hc ho
    by_cases hne : c = child.id
    · rw [hne, trackChildOrder_self] at ho
      rw [← Option.some.inj ho, hne, cumSoFar_of_unknown hunknown, hfilled]
      exact ⟨rfl, hnonneg⟩
    · rw [hparentOf hne] at hc
      rw [trackChildOrder_other hne] at ho
      exact hs.child hc ho
  case filled =>
    intro p o hp ho
    obtain ⟨hp, ho⟩ := hold hp ho
    rw [hsum, hs.filled hp ho, hfilled, add_zero, ite_self]
  case remaining =>
    intro p o hp ho
    obtain ⟨hp, ho⟩ := hold hp ho
    exact hs.remaining hp ho
  case within =>
    intro p o hp ho hsome
    obtain ⟨hp, ho⟩ := hold hp ho
    rw [hsum]
    split_ifs with hpq
    · rw [hpq] at ho ⊢
      rw [← Option.some.inj (hparent.symm.trans ho)]
      exact hfits
    · rw [trackChildOrder_getChildren, if_neg hpq] at hsome
      exact hs.within hp ho hsome
  case settled =>
    intro p o hp ho hfull
    obtain ⟨hp, ho⟩ := hold hp ho
    refine (hs.settled hp ho hfull).imp_right fun hquiet => ⟨hquiet.1, ?_⟩
    rintro ⟨r, hr, hevent, hof⟩
    rw [hparentOf (hunknown r hr)] at hof
    exact hquiet.2 ⟨r, hr, hevent, hof⟩

section Report

variable (hs : Summed reports h) (hr : h.Reports r p o o' parent)

include hs hr

theorem sumOver_report (m : Order → ℤ) (q : ℕ) : (h.onExecutionReport r).1.sumOver m q =
    if q = p then h.sumOver m p - m o + m o' else h.sumOver m q := by
  have hw := hs.handler
  have hnot : p ∉ (h.setOrder r.orderId o').getChildren q :=
    hs.not_mem_children (hw.parentNoChild hr.parentOf) q
  rw [(hw.onExecutionReport_child hr).1, sumOver_other hnot]
  split_ifs with hq
  · rw [hq]
    exact sumOver_setOrder (hs.nodup p) (hw.mem_children.mpr hr.parentOf) hr.order
  · apply sumOver_other
    intro hmem
    exact hq (Option.some.inj ((hw.mem_children.mp hmem).symm.trans hr.parentOf))

/-- A root is the parent of the child, or an order that stays as it was. -/
theorem root_report {q : ℕ} {o'' : Order} (hq : h.childToParent q = none)
    (ho : (h.onExecutionReport r).1.orders q = some o'') :
    (q = p ∧ o'' = h.parentAfter r p o' parent) ∨ q ≠ p ∧ h.orders q = some o'' := by
  rw [(hs.handler.onExecutionReport_child hr).1] at ho
  by_cases hqp : q = p
  · rw [hqp, setOrder_self] at ho
    exact .inl ⟨hqp, (Option.some.inj ho).symm⟩
  · have hne : q ≠ r.orderId := by
      rintro rfl
      rw [hr.parentOf] at hq
      cases hq
    rw [setOrder_other hqp, setOrder_other hne] at ho
    exact .inr ⟨hqp, ho⟩

variable (htrade : 0 < r.lastQuantity →
  r.cumQuantity = cumSoFar r.orderId reports + r.lastQuantity ∧ r.cumQuantity ≤ o.quantity)

include htrade

theorem filledQuantity_report : o'.filledQuantity = o.filledQuantity + max 0 r.lastQuantity ∧
    o'.filledQuantity ≤ o'.quantity := by
  obtain ⟨hcum, hbound⟩ := hs.child hr.parentOf hr.order
  obtain ⟨-, -, -, -, -, hafter⟩ := Order.onReport_fields hr.applied
  rw [hafter, (Order.sameTerms_onReport hr.applied).quantity]
  split_ifs with hlast
  · obtain ⟨hadds, hwithin⟩ := htrade hlast
    refine ⟨?_, hwithin⟩
    rw [hadds, hcum]
    omega
  · refine ⟨?_, hbound⟩
    omega

theorem parentAfter_filled_report : (h.parentAfter r p o' parent).filledQuantity =
    (h.onExecutionReport r).1.sumOver (fun c => c.filledQuantity) p := by
  rw [hs.sumOver_report hr, if_pos rfl, parentAfter_filledQuantity,
    hs.filled (hs.handler.parentNoChild hr.parentOf) hr.parent, (hs.filledQuantity_report hr htrade).1]
  omega

/-- The children are within their quantities, and these within the parent's. -/
theorem parent_within_report : parent.filledQuantity + max 0 r.lastQuantity ≤ parent.quantity := by
  have hw := hs.handler
  have hchild := hw.mem_children.mpr hr.parentOf
  have hall : h.sumOver (fun c => c.quantity) p ≤ parent.quantity :=
    hs.within (hw.parentNoChild hr.parentOf) hr.parent (List.ne_nil_of_mem hchild)
  have hothers : (h.setOrder r.orderId o').sumOver (fun c => c.filledQuantity) p ≤
      (h.setOrder r.orderId o').sumOver (fun c => c.quantity) p := by
    apply sumOver_le
    intro c hc o'' ho
    by_cases hcr : c = r.orderId
    · rw [hcr, setOrder_self] at ho
      rw [← Option.some.inj ho]
      exact (hs.filledQuantity_report hr htrade).2
    · rw [Option.mem_def, setOrder_other hcr] at ho
      exact (hs.child (hw.mem_children.mp hc) ho).2
  have hafter : (h.parentAfter r p o' parent).filledQuantity = _ := parentAfter_filledQuantity
  rw [← hafter, hs.parentAfter_filled_report hr htrade, hs.sumOver_report hr, if_pos rfl]
  rw [sumOver_setOrder (hs.nodup p) hchild hr.order, sumOver_setOrder (hs.nodup p) hchild hr.order,
    (Order.sameTerms_onReport hr.applied).quantity] at hothers
  omega

theorem report : Summed (reports ++ [r]) (h.onExecutionReport r).1 := by
  have hw := hs.handler
  have hroot := hw.parentNoChild hr.parentOf
  have hquantity := (Order.sameTerms_onReport hr.applied).quantity
  have hparentTerms : parent.SameTerms (h.parentAfter r p o' parent) := h.sameTerms_parentAfter
  have hchildren (q : ℕ) : (h.onExecutionReport r).1.getChildren q = h.getChildren q := by
    rw [(hw.onExecutionReport_child hr).1]
    rfl
  have hparentOf (c : ℕ) : (h.onExecutionReport r).1.childToParent c = h.childToParent c := by
    rw [(hw.onExecutionReport_child hr).1]
    rfl
  constructor
  case handler => exact hw.report r
  case nodup =>
    intro q
    rw [hchildren]
    exact hs.nodup q
  case known =>
    intro s hmem
    rw [hparentOf]
    rcases List.mem_append.mp hmem with hmem | hmem
    · exact hs.known s hmem
    · rw [List.mem_singleton.mp hmem]
      exact Option.isSome_of_eq_some hr.parentOf
  case child =>
    intro c q o'' hc ho
    rw [hparentOf] at hc
    have hne : c ≠ p := by
      rintro rfl
      rw [hroot] at hc
      cases hc
    rw [(hw.onExecutionReport_child hr).1, setOrder_other hne] at ho
    rw [cumSoFar_append]
    by_cases hcr : c = r.orderId
    · obtain ⟨hcum, hbound⟩ := hs.child hr.parentOf hr.order
      obtain ⟨-, -, -, -, -, hafter⟩ := Order.onReport_fields hr.applied
      rw [hcr, setOrder_self] at ho
      rw [← Option.some.inj ho, hafter, hquantity, hcr]
      by_cases hlast : 0 < r.lastQuantity
      · rw [if_pos hlast, if_pos ⟨rfl, hlast⟩]
        exact ⟨rfl, (htrade hlast).2⟩
      · rw [if_neg hlast, if_neg fun hcond => hlast hcond.2]
        exact ⟨hcum, hbound⟩
    · rw [setOrder_other hcr] at ho
      rw [if_neg fun hcond => hcr hcond.1.symm]
      exact hs.child hc ho
  case filled =>
    intro q o'' hq ho
    rw [hparentOf] at hq
    obtain ⟨rfl, rfl⟩ | ⟨hqp, ho⟩ := hs.root_report hr hq ho
    · exact hs.parentAfter_filled_report hr htrade
    · rw [hs.sumOver_report hr, if_neg hqp]
      exact hs.filled hq ho
  case remaining =>
    intro q o'' hq ho
    rw [hparentOf] at hq
    obtain ⟨rfl, rfl⟩ | ⟨-, ho⟩ := hs.root_report hr hq ho
    · exact parentAfter_remaining (hs.remaining hroot hr.parent) (hs.parent_within_report hr htrade)
    · exact hs.remaining hq ho
  case within =>
    intro q o'' hq ho hsome
    rw [hparentOf] at hq
    rw [hchildren] at hsome
    rw [hs.sumOver_report hr]
    obtain ⟨rfl, rfl⟩ | ⟨hqp, ho⟩ := hs.root_report hr hq ho
    · rw [if_pos rfl, hparentTerms.quantity, hquantity]
      have hall := hs.within hroot hr.parent hsome
      omega
    · rw [if_neg hqp]
      exact hs.within hq ho hsome
  case settled =>
    intro q o'' hq ho hfull
    rw [hparentOf] at hq
    obtain ⟨rfl, rfl⟩ | ⟨hqp, ho⟩ := hs.root_report hr hq ho
    · rw [parentAfter_filledQuantity, hparentTerms.quantity] at hfull
      exact .inl (parentAfter_filled.mpr (.inr (Order.withTrade_isFull.mpr hfull.ge)))
    · refine (hs.settled hq ho hfull).imp_right fun hquiet => ⟨hquiet.1, ?_⟩
      rintro ⟨s, hmem, hevent, hof⟩
      rw [hparentOf] at hof
      rcases List.mem_append.mp hmem with hmem | hmem
      · exact hquiet.2 ⟨s, hmem, hevent, hof⟩
      · rw [List.mem_singleton.mp hmem, hr.parentOf] at hof
        exact hqp (Option.some.inj hof).symm

end Report

theorem ignored (hs : Summed reports h) (hchild : (h.childToParent r.orderId).isSome)
    (hevent : reportEvent r.state = none) (hlast : ¬0 < r.lastQuantity) : Summed (reports ++ [r]) h := by
  have hcum (id : ℕ) : cumSoFar id (reports ++ [r]) = cumSoFar id reports := by
    rw [cumSoFar_append, if_neg fun hcond => hlast hcond.2]
  refine ⟨hs.handler, hs.nodup, ?_, ?_, hs.filled, hs.remaining, hs.within, ?_⟩
  · intro s hmem
    rcases List.mem_append.mp hmem with hmem | hmem
    · exact hs.known s hmem
    · rw [List.mem_singleton.mp hmem]
      exact hchild
  · intro c p o hc ho
    rw [hcum]
    exact hs.child hc ho
  · intro p o hp ho hfull
    refine (hs.settled hp ho hfull).imp_right fun hquiet => ⟨hquiet.1, ?_⟩
    rintro ⟨s, hmem, hsome, hof⟩
    rcases List.mem_append.mp hmem with hmem | hmem
    · exact hquiet.2 ⟨s, hmem, hsome, hof⟩
    · rw [List.mem_singleton.mp hmem, hevent] at hsome
      cases hsome

theorem step {k : Trace Call Deferred} {call : Call} (hs : Summed (reportsOf k) h) (hc : Streams k h call)
    (es : List Deferred) : Summed (reportsOf (k ++ [(call, es)])) (next h call) := by
  have happend : reportsOf (k ++ [(call, es)]) = reportsOf k ++ (reportOf call).toList := by
    rw [reportsOf, List.filterMap_append]
    cases call <;> rfl
  rw [happend]
  cases call with
  | trackOrder parent =>
    change Summed (reportsOf k ++ []) _
    rw [List.append_nil]
    exact hs.trackOrder hc.1 hc.2.1 hc.2.2
  | trackChildOrder q child =>
    obtain ⟨hroot, hnew, hfilled, hnonneg, parent, hparent, hfits⟩ := hc
    change Summed (reportsOf k ++ []) _
    rw [List.append_nil]
    exact hs.trackChildOrder hroot hnew hfilled hnonneg hparent hfits
  | report r =>
    obtain ⟨hchild, htrade⟩ := hc
    change Summed (reportsOf k ++ [r]) _
    obtain ⟨hnot, hsame⟩ | ⟨-, o, o', -, -, hroot⟩ | ⟨-, p, o, o', parent, hr⟩ :=
      HandlerCalls.report_cases hs.handler r
    · obtain ⟨p, hp⟩ := Option.isSome_iff_exists.mp hchild
      have hevent : reportEvent r.state = none := by
        by_contra hsome
        exact hnot ⟨hs.handler.childTracked hp, Option.isSome_iff_ne_none.mpr hsome⟩
      rw [next, perform, hsame]
      refine hs.ignored hchild hevent fun hlast => ?_
      rcases (htrade hlast).1 with hstate | hstate
      · rw [hstate] at hevent
        cases hevent
      · rw [hstate] at hevent
        cases hevent
    · rw [hroot] at hchild
      cases hchild
    · refine hs.report hr fun hlast => ?_
      obtain ⟨-, hcum, child, hfound, hle⟩ := htrade hlast
      obtain rfl := Option.some.inj (hr.order.symm.trans hfound)
      exact ⟨hcum, hle⟩

end Summed

/-- A parent is the sum of its children, and filled as soon as they have filled all of it: for a parent
over nothing, with the first report that is acted on for a child. -/
theorem parent_sums_children {fill completion reroute : Bool} {k : Trace Call Deferred}
    (hr : machine.Reach Streams
      { hasFillCallback := fill
        hasCompletionCallback := completion
        hasRerouteCallback := reroute } k h)
    (hroot : h.childToParent p = none) (hp : h.orders p = some parent) :
    let filled := h.sumOver (fun c => c.filledQuantity) p
    parent.filledQuantity = filled ∧ parent.remainingQuantity = parent.quantity - filled ∧
      (filled = parent.quantity → parent.quantity ≠ 0 ∨ Heard h p (reportsOf k) → parent.state = .filled) := by
  have hs : Summed (reportsOf k) h := by
    refine hr.invariant (I := fun k h => Summed (reportsOf k) h) (Summed.initial _ _ _) ?_
    intro k h call t es hs hc hstep
    obtain ⟨rfl, -⟩ := Prod.mk.inj (Option.some.inj hstep)
    exact hs.step hc es
  have hfilled := hs.filled hroot hp
  intro filled
  refine ⟨hfilled, ?_, fun hfull hreached => ?_⟩
  · rw [hs.remaining hroot hp, Order.leavesQty, hfilled]
  · obtain hdone | ⟨hzero, hquiet⟩ := hs.settled hroot hp (hfilled.trans hfull)
    · exact hdone
    · rcases hreached with hne | hheard
      · exact absurd hzero hne
      · exact absurd hheard hquiet

def partlyFilled : List Call :=
  [.trackOrder { id := 1, quantity := 10, remainingQuantity := 10, state := .pendingNew },
    .trackChildOrder 1 { id := 2, parentOrderId := 1, quantity := 6, state := .pendingNew },
    .trackChildOrder 1 { id := 3, parentOrderId := 1, quantity := 3, state := .pendingNew },
    .report { orderId := 3, state := .accepted, leavesQuantity := 3 },
    .report { orderId := 2, state := .filled, lastPrice := 100, lastQuantity := 6, cumQuantity := 6 },
    .report { orderId := 3, state := .partiallyFilled, lastPrice := 101, lastQuantity := 2, cumQuantity := 2 },
    .report { orderId := 3, state := .canceled, cumQuantity := 2 }]

theorem parent_sums_children_partly : ∃ (h : ExecutionHandler) (parent : Order), h.orders 1 = some parent ∧
    h.sumOver (fun c => c.filledQuantity) 1 = 8 ∧ parent.filledQuantity = 8 ∧
    parent.remainingQuantity = 2 := by
  obtain ⟨k, h, hr, hroot, hsum, parent, hp, hquantity⟩ := Machine.exists_reach machine Streams {}
    (fun _ h => h.childToParent 1 = none ∧ h.sumOver (fun c => c.filledQuantity) 1 = 8 ∧
      ∃ parent ∈ h.orders 1, parent.quantity = 10) partlyFilled (by decide)
  obtain ⟨hfilled, hleft, -⟩ := parent_sums_children hr hroot hp
  exact ⟨h, parent, hp, hsum, by rw [hfilled, hsum], by rw [hleft, hsum, hquantity]; rfl⟩

end ParentTotals

end Klett.Sor
