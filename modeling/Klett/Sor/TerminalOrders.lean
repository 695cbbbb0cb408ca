import Klett.Sor.HandlerCalls

namespace Klett.Sor

namespace Order

variable {o o' : Order} {r : ExecutionReport}

theorem onReport_of_terminal (hended : o.isTerminal = true) (h : o.onReport r = some o') :
    o' = o.recordFill r := by
  obtain ⟨event, -, rfl⟩ := Option.map_eq_some_iff.mp h
  have hsame : o.beforeCancel r.state = o := by
    unfold beforeCancel
    rw [apply_of_terminal o _ hended, ite_self]
  rw [hsame, apply_of_terminal o event hended]

theorem recordFill_of_no_trade (o : Order) (h : ¬0 < r.lastQuantity) : o.recordFill r = o := if_neg h

end Order

namespace TerminalOrders

open Klett.Lib ExecutionHandler HandlerCalls

def SameProgress (o o' : Order) : Prop :=
  o'.state = o.state ∧ o'.filledQuantity = o.filledQuantity ∧ o'.avgFillPrice = o.avgFillPrice

instance (o o' : Order) : Decidable (SameProgress o o') := inferInstanceAs (Decidable (_ ∧ _ ∧ _))

def LiveAt (h : ExecutionHandler) (id : ℕ) : Prop := ∃ o ∈ h.orders id, o.isTerminal = false

/-- The report leaves every terminal child as it is. Their parents' fills too, unless it is about the
parent itself or about an order that is still live. -/
def Freezes (h : ExecutionHandler) : Call → Prop
  | .report r => ∀ c p child, h.childToParent c = some p → h.orders c = some child →
      child.isTerminal = true →
      (∃ child' ∈ (next h (.report r)).orders c, SameProgress child child') ∧
        (r.orderId ≠ p → ¬LiveAt h r.orderId → ∀ parent ∈ h.orders p,
          ∃ parent' ∈ (next h (.report r)).orders p, parent'.filledQuantity = parent.filledQuantity)
  | _ => True

def LateTrade (h : ExecutionHandler) : Call → Prop
  | .report r => ActsOn h r ∧ (h.childToParent r.orderId).isSome ∧
      (∃ o ∈ h.orders r.orderId, o.isTerminal = true) ∧ 0 < r.lastQuantity
  | _ => False

instance (h : ExecutionHandler) : ∀ call, Decidable (LateTrade h call)
  | .trackOrder _ => inferInstanceAs (Decidable False)
  | .trackChildOrder _ _ => inferInstanceAs (Decidable False)
  | .report r =>
    have : Decidable (∃ o ∈ h.orders r.orderId, o.isTerminal = true) :=
      decidable_of_iff ((h.orders r.orderId).any (fun o => o.isTerminal) = true) (by
        cases h.orders r.orderId <;> simp)
    inferInstanceAs (Decidable (_ ∧ _ ∧ _ ∧ _))

variable {h : ExecutionHandler} {call : Call} {calls : List Call} {r : ExecutionReport} {c p : ℕ}
  {child o o' parent : Order}

theorem SameProgress.refl (o : Order) : SameProgress o o := ⟨rfl, rfl, rfl⟩

theorem SameProgress.trans {o o' o'' : Order} (h : SameProgress o o') (h' : SameProgress o' o'') :
    SameProgress o o'' :=
  ⟨h'.1.trans h.1, h'.2.1.trans h.2.1, h'.2.2.trans h.2.2⟩

theorem lateTrade_not_frozen (hw : h.WellFormed) (hl : LateTrade h (.report r)) : ¬Freezes h (.report r) := by
  obtain ⟨hacts, hchild, ⟨o, ho, hended⟩, hlast⟩ := hl
  obtain ⟨hnot, -⟩ | ⟨-, _, _, -, -, hroot⟩ | ⟨-, p, o, o', parent, hr⟩ := HandlerCalls.report_cases hw r
  · exact absurd hacts hnot
  · rw [hroot] at hchild
    cases hchild
  · intro hf
    obtain rfl := Option.some.inj (hr.order.symm.trans ho)
    have hdead : ¬LiveAt h r.orderId := by
      rintro ⟨o'', ho'', hopen⟩
      obtain rfl := Option.some.inj (hr.order.symm.trans ho'')
      rw [hended] at hopen
      cases hopen
    obtain ⟨parent', hparent', hfilled⟩ :=
      (hf r.orderId p o hr.parentOf hr.order hended).2 (hw.ne_parent hr.parentOf) hdead parent hr.parent
    rw [next, perform, (hw.onExecutionReport_child hr).1, setOrder_self] at hparent'
    rw [← Option.some.inj hparent', parentAfter_filledQuantity] at hfilled
    omega

theorem frozen_of_not_lateTrade (hw : h.WellFormed) (hl : ¬LateTrade h (.report r)) :
    Freezes h (.report r) := by
  intro c p child hp hc hended
  rw [next, perform]
  obtain ⟨-, hsame⟩ | ⟨-, o, o', ho, hr, hroot⟩ | ⟨hacts, q, o, o', parent, hr⟩ := HandlerCalls.report_cases hw r
  · rw [hsame]
    exact ⟨⟨child, hc, .refl child⟩, fun _ _ parent hparent => ⟨parent, hparent, rfl⟩⟩
  · -- a root is no child, and only its own order changes
    have hne : c ≠ r.orderId := by
      rintro rfl
      rw [hroot] at hp
      cases hp
    rw [(hw.onExecutionReport_root ho hr hroot).1]
    constructor
    · rw [setOrder_other hne]
      exact ⟨child, hc, .refl child⟩
    · intro hother _ parent hparent
      rw [setOrder_other (Ne.symm hother)]
      exact ⟨parent, hparent, rfl⟩
  · rw [(hw.onExecutionReport_child hr).1]
    have hcq : c ≠ q := by
      rintro rfl
      rw [hw.parentNoChild hr.parentOf] at hp
      cases hp
    have hpr : p ≠ r.orderId := by
      rintro rfl
      have hroot := hw.parentNoChild hp
      rw [hr.parentOf] at hroot
      cases hroot
    have hquiet (hterminal : o.isTerminal = true) : ¬0 < r.lastQuantity := fun hlast =>
      hl ⟨hacts, Option.isSome_of_eq_some hr.parentOf, ⟨o, hr.order, hterminal⟩, hlast⟩
    constructor
    · rw [setOrder_other hcq]
      by_cases hcr : c = r.orderId
      · subst hcr
        obtain rfl := Option.some.inj (hr.order.symm.trans hc)
        rw [setOrder_self]
        refine ⟨o', rfl, ?_⟩
        rw [Order.onReport_of_terminal hended hr.applied, Order.recordFill_of_no_trade o (hquiet hended)]
        exact .refl o
      · rw [setOrder_other hcr]
        exact ⟨child, hc, .refl child⟩
    · intro _ hdead before hbefore
      by_cases hpq : p = q
      · subst hpq
        obtain rfl := Option.some.inj (hr.parent.symm.trans hbefore)
        have hterminal : o.isTerminal = true := by
          by_contra hopen
          exact hdead ⟨o, hr.order, Bool.eq_false_iff.mpr hopen⟩
        have hnone := hquiet hterminal
        rw [setOrder_self]
        refine ⟨_, rfl, ?_⟩
        rw [parentAfter_filledQuantity]
        omega
      · rw [setOrder_other hpq, setOrder_other hpr]
        exact ⟨before, hbefore, rfl⟩

theorem freezes_iff (hw : h.WellFormed) : Freezes h call ↔ ¬LateTrade h call := by
  cases call with
  | report r =>
    constructor
    · intro hf hl
      exact lateTrade_not_frozen hw hl hf
    · exact frozen_of_not_lateTrade hw
  | _ => simp [Freezes, LateTrade]

/-- Terminal children are frozen along a run exactly when it has no late trade. -/
theorem terminal_frozen_iff (hw : h.WellFormed) (ht : Along next Tracks h calls) :
    Along next Freezes h calls ↔ Along next (fun h call => ¬LateTrade h call) h calls :=
  ht.congr hw (fun _ _ => wellFormed_next) fun _ _ hw _ => freezes_iff hw

theorem terminal_step (hw : h.WellFormed) (ht : Tracks h call) (hl : ¬LateTrade h call)
    (hp : h.childToParent c = some p) (hc : h.orders c = some child) (hended : child.isTerminal = true) :
    (next h call).childToParent c = some p ∧ ∃ child' ∈ (next h call).orders c, SameProgress child child' := by
  cases call with
  | trackOrder parent =>
    have hne : c ≠ parent.id := by
      rintro rfl
      rw [ht] at hp
      cases hp
    refine ⟨hp, child, ?_, .refl child⟩
    exact (trackOrder_other hne).trans hc
  | trackChildOrder q new =>
    have hne : c ≠ new.id := by
      rintro rfl
      rw [ht.2.2] at hc
      cases hc
    constructor
    · exact (trackChildOrder_childToParent.trans (if_neg hne)).trans hp
    · exact ⟨child, (trackChildOrder_other hne).trans hc, .refl child⟩
  | report r =>
    obtain ⟨orders, hframe⟩ := h.onExecutionReport_frame r
    constructor
    · rw [next, perform, hframe]
      exact hp
    · exact (frozen_of_not_lateTrade hw hl c p child hp hc hended).1

theorem terminal_run (hw : h.WellFormed) (ht : Along next Tracks h calls)
    (hl : Along next (fun h call => ¬LateTrade h call) h calls) (hp : h.childToParent c = some p)
    (hc : h.orders c = some child) (hended : child.isTerminal = true) :
    ∃ child' ∈ (calls.foldl next h).orders c, SameProgress child child' := by
  induction calls generalizing h child with
  | nil => exact ⟨child, hc, .refl child⟩
  | cons call calls ih =>
    obtain ⟨hp', child', hc', hsame⟩ := terminal_step hw ht.1 hl.1 hp hc hended
    have hended' : child'.isTerminal = true := by
      rw [Order.isTerminal, hsame.1]
      exact hended
    obtain ⟨last, hlast, hrest⟩ := ih (wellFormed_next hw ht.1) ht.2 hl.2 hp' hc' hended'
    exact ⟨last, hlast, hsame.trans hrest⟩

def filledChild : List Call :=
  [.trackOrder { id := 1, quantity := 10, remainingQuantity := 10, state := .pendingNew },
    .trackChildOrder 1 { id := 2, parentOrderId := 1, quantity := 10, state := .pendingNew },
    .report { orderId := 2, state := .accepted, leavesQuantity := 10 },
    .report { orderId := 2, state := .filled, lastPrice := 100, lastQuantity := 10, cumQuantity := 10 }]

theorem terminal_frozen_canceled_late : Along next Freezes {}
    (filledChild ++ [.report { orderId := 2, state := .canceled, cumQuantity := 10 }]) :=
  (terminal_frozen_iff .initial (by decide)).mpr (by decide)

def late : ExecutionReport where
  orderId := 2
  state := .partiallyFilled
  lastPrice := 250
  lastQuantity := 5
  cumQuantity := 15

/-- It counts once more, for the child and for its parent. -/
theorem late_trade_counted : ∃ child parent child' parent',
    let h := filledChild.foldl next {}
    h.childToParent 2 = some 1 ∧ h.orders 2 = some child ∧ child.state = .filled ∧ h.orders 1 = some parent ∧
      (h.onExecutionReport late).1.orders 2 = some child' ∧
      (h.onExecutionReport late).1.orders 1 = some parent' ∧
      child.filledQuantity = 10 ∧ child'.filledQuantity = 15 ∧
      child.avgFillPrice = 100 ∧ child'.avgFillPrice = 150 ∧
      parent.filledQuantity = 10 ∧ parent'.filledQuantity = 15 := by
  refine ⟨_, _, _, _, rfl, rfl, rfl, rfl, rfl, rfl, ?_⟩
  decide

end TerminalOrders

end Klett.Sor
