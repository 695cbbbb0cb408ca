import Klett.Sor.OrderIds

namespace Klett.Sor.Gateway

open Klett.Lib

variable {V : Type}

def child (g : Gateway V) (id : ℕ) : Option Order :=
  if (g.execHandler.childToParent id).isSome then g.execHandler.orders id else none

variable {g g' : Gateway V} {es : List Event} {unused : List ℕ} {id : ℕ} {o : Order}

theorem child_of_parent {p : ℕ} (hp : g.execHandler.childToParent id = some p)
    (ho : g.execHandler.orders id = some o) : g.child id = some o := by
  rw [child, hp]
  exact ho

theorem child_eq_some : g.child id = some o ↔
    (g.execHandler.childToParent id).isSome ∧ g.execHandler.orders id = some o := by
  unfold child
  split_ifs with hp <;> simp [hp]

theorem child_bounded (hn : Numbered es g unused) (hc : g.child id = some o) : id < g.nextOrderId :=
  hn.bounded (by rw [(child_eq_some.mp hc).2]; rfl)

theorem child_congr (hh : g'.execHandler = g.execHandler) : g'.child = g.child := by
  funext id
  rw [child, child, hh]

theorem child_admitted {order : Order} (hr : Ready es g unused order) (engine : RoutingEngine)
    (limiter : RateLimiter) : (g.admitted (order.apply .submit) engine limiter).child = g.child := by
  funext id
  have hparent : (g.admitted (order.apply .submit) engine limiter).execHandler.childToParent =
      g.execHandler.childToParent := rfl
  unfold child
  rw [hparent]
  split_ifs with hchild
  · refine ExecutionHandler.trackOrder_other ?_
    rw [Order.apply_id]
    rintro rfl
    rw [hr.root] at hchild
    cases hchild
  · rfl

theorem child_createChild (order : Order) (slice : Slice) :
    (g.createChild order slice).child =
      Function.update g.child g.nextOrderId (some (childOf order slice g.nextOrderId)) := by
  funext id
  have hparent : (g.createChild order slice).execHandler.childToParent id = _ :=
    ExecutionHandler.trackChildOrder_childToParent
  by_cases heq : id = g.nextOrderId
  · have hself : (g.createChild order slice).execHandler.orders g.nextOrderId = _ :=
      ExecutionHandler.trackChildOrder_self
    rw [heq, Function.update_self, child_eq_some, ← heq, hparent, childOf_id, if_pos heq, heq, hself]
    exact ⟨rfl, rfl⟩
  · have hother : (g.createChild order slice).execHandler.orders id = _ :=
      ExecutionHandler.trackChildOrder_other heq
    rw [Function.update_of_ne heq, child, child, hparent, hother, childOf_id, if_neg heq]

section Report

variable {r : ExecutionReport} {p : ℕ} {o o' parent : Order}

theorem child_applyReport_ignored (hi : ∀ o, g.execHandler.orders r.orderId = some o → o.onReport r = none) :
    (g.applyReport r).child = g.child := by
  obtain ⟨fills, heq⟩ := g.applyReport_frame (r := r)
  rw [heq, ExecutionHandler.onExecutionReport_ignored hi]
  rfl

theorem child_applyReport_root (hw : g.execHandler.WellFormed) (ho : g.execHandler.orders r.orderId = some o)
    (hr : o.onReport r = some o') (hroot : g.execHandler.childToParent r.orderId = none) :
    (g.applyReport r).child = g.child := by
  obtain ⟨fills, heq⟩ := g.applyReport_frame (r := r)
  funext id
  rw [heq]
  unfold child
  simp only
  rw [(hw.onExecutionReport_root ho hr hroot).1, ExecutionHandler.setOrder_childToParent]
  split_ifs with hchild
  · refine ExecutionHandler.setOrder_other ?_ _
    rintro rfl
    rw [hroot] at hchild
    cases hchild
  · rfl

theorem child_applyReport (hw : g.execHandler.WellFormed) (hr : g.execHandler.Reports r p o o' parent) :
    (g.applyReport r).child = Function.update g.child r.orderId (some o') := by
  obtain ⟨fills, heq⟩ := g.applyReport_frame (r := r)
  funext id
  rw [heq]
  unfold child
  simp only
  rw [(hw.onExecutionReport_child hr).1, ExecutionHandler.setOrder_childToParent,
    ExecutionHandler.setOrder_childToParent]
  by_cases hid : id = r.orderId
  · rw [hid, Function.update_self, hr.parentOf, ExecutionHandler.setOrder_other (hw.ne_parent hr.parentOf),
      ExecutionHandler.setOrder_self]
    rfl
  · rw [Function.update_of_ne hid]
    split_ifs with hchild
    · have hne : id ≠ p := by
        rintro rfl
        rw [hw.parentNoChild hr.parentOf] at hchild
        cases hchild
      rw [ExecutionHandler.setOrder_other hne, ExecutionHandler.setOrder_other hid]
    · rfl

theorem child_applyReport_after (hw : g.execHandler.WellFormed) (hc : g.child r.orderId = some o) :
    (g.applyReport r).child = Function.update g.child r.orderId (some ((o.onReport r).getD o)) := by
  obtain ⟨hparent, ho⟩ := child_eq_some.mp hc
  cases hr : o.onReport r with
  | none =>
    have hi : ∀ o, g.execHandler.orders r.orderId = some o → o.onReport r = none := fun o₁ ho₁ => by
      rw [← Option.some.inj (ho.symm.trans ho₁)]
      exact hr
    rw [child_applyReport_ignored hi, Option.getD_none, ← hc, Function.update_eq_self]
  | some o' =>
    obtain ⟨p, hp⟩ := Option.isSome_iff_exists.mp hparent
    obtain ⟨parent, hfound⟩ := Option.isSome_iff_exists.mp (hw.parentTracked hp)
    exact child_applyReport hw ⟨ho, hr, hp, hfound⟩

end Report

end Klett.Sor.Gateway
