import Klett.Lib.Machine
import Klett.Sor.Tracking

namespace Klett.Sor.HandlerCalls

open Klett.Lib ExecutionHandler

inductive Call
  | trackOrder (parent : Order)
  | trackChildOrder (parentId : ℕ) (child : Order)
  | report (report : ExecutionReport)
  deriving DecidableEq

def perform (h : ExecutionHandler) : Call → ExecutionHandler × Deferred
  | .trackOrder parent => (h.trackOrder parent, {})
  | .trackChildOrder parentId child => (h.trackChildOrder parentId child, {})
  | .report report => h.onExecutionReport report

def next (h : ExecutionHandler) (call : Call) : ExecutionHandler := (perform h call).1

/-- Orders are tracked the way the gateway does it: a parent is nobody's child, a child is a new order
of a tracked parent. -/
def Tracks (h : ExecutionHandler) : Call → Prop
  | .trackOrder parent => h.childToParent parent.id = none
  | .trackChildOrder parentId child =>
    (h.orders parentId).isSome ∧ h.childToParent parentId = none ∧ h.orders child.id = none
  | .report _ => True

instance (h : ExecutionHandler) : ∀ call, Decidable (Tracks h call)
  | .trackOrder _ => inferInstanceAs (Decidable (_ = _))
  | .trackChildOrder _ _ => inferInstanceAs (Decidable (_ ∧ _ ∧ _))
  | .report _ => inferInstanceAs (Decidable True)

def ActsOn (h : ExecutionHandler) (r : ExecutionReport) : Prop :=
  (h.orders r.orderId).isSome ∧ (reportEvent r.state).isSome

instance (h : ExecutionHandler) (r : ExecutionReport) : Decidable (ActsOn h r) :=
  inferInstanceAs (Decidable (_ ∧ _))

variable {h : ExecutionHandler} {call : Call} {r : ExecutionReport} {o : Order}

theorem wellFormed_next (hw : h.WellFormed) (ht : Tracks h call) : (next h call).WellFormed := by
  cases call with
  | trackOrder parent => exact hw.trackOrder
  | trackChildOrder parentId child => exact hw.trackChildOrder ht.1 ht.2.1 ht.2.2
  | report r => exact hw.report r

theorem onReport_isSome (o : Order) (r : ExecutionReport) :
    (o.onReport r).isSome = (reportEvent r.state).isSome := by
  rw [Order.onReport, Option.isSome_map]

theorem report_cases (hw : h.WellFormed) (r : ExecutionReport) :
    (¬ActsOn h r ∧ h.onExecutionReport r = (h, {})) ∨
      (ActsOn h r ∧ ∃ o o', h.orders r.orderId = some o ∧ o.onReport r = some o' ∧
        h.childToParent r.orderId = none) ∨
      (ActsOn h r ∧ ∃ p o o' parent, h.Reports r p o o' parent) := by
  obtain hignored | ⟨o, o', ho, hr, hroot⟩ | ⟨p, o, o', parent, hr⟩ := hw.report_cases r
  · refine .inl ⟨?_, onExecutionReport_ignored hignored⟩
    rintro ⟨htracked, hevent⟩
    obtain ⟨o, ho⟩ := Option.isSome_iff_exists.mp htracked
    rw [← onReport_isSome o, hignored o ho] at hevent
    cases hevent
  · refine .inr (.inl ⟨⟨Option.isSome_of_eq_some ho, ?_⟩, o, o', ho, hr, hroot⟩)
    rw [← onReport_isSome o, hr]
    rfl
  · refine .inr (.inr ⟨⟨Option.isSome_of_eq_some hr.order, ?_⟩, p, o, o', parent, hr⟩)
    rw [← onReport_isSome o, hr.applied]
    rfl

end Klett.Sor.HandlerCalls
