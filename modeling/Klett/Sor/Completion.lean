import Mathlib.Data.List.Nodup
import Klett.Sor.HandlerCalls

namespace Klett.Sor.Completion

open Klett.Lib ExecutionHandler HandlerCalls

def Completed (h : ExecutionHandler) (p : ℕ) : Prop :=
  h.childToParent p = none ∧ ∃ o ∈ h.orders p, o.state = .filled

instance (h : ExecutionHandler) (p : ℕ) : Decidable (Completed h p) :=
  have : Decidable (∃ o ∈ h.orders p, o.state = .filled) :=
    decidable_of_iff ((h.orders p).any (fun o => o.state = .filled) = true) (by
      cases h.orders p <;> simp)
  inferInstanceAs (Decidable (_ ∧ _))

def completes (h : ExecutionHandler) (call : Call) : Option ℕ :=
  (perform h call).2.completion.map fun o => o.id

def completions : ExecutionHandler → List Call → List ℕ
  | _, [] => []
  | h, call :: calls => (completes h call).toList ++ completions (next h call) calls

def TracksOpen (h : ExecutionHandler) (call : Call) : Prop :=
  Tracks h call ∧ ∀ parent, call = .trackOrder parent → parent.state ≠ .filled ∧ ¬Completed h parent.id

instance (h : ExecutionHandler) : ∀ call, Decidable (TracksOpen h call)
  | .trackOrder parent => decidable_of_iff
      (Tracks h (.trackOrder parent) ∧ parent.state ≠ .filled ∧ ¬Completed h parent.id)
      (by simp [TracksOpen])
  | .trackChildOrder p child => decidable_of_iff (Tracks h (.trackChildOrder p child)) (by simp [TracksOpen])
  | .report r => decidable_of_iff (Tracks h (.report r)) (by simp [TracksOpen])

/-- A report that is acted on for an order that is complete already: for a completed root itself, or
for a child of a completed parent that stays full. -/
def Recompletes (h : ExecutionHandler) : Call → Prop
  | .report r => h.hasCompletionCallback = true ∧ ActsOn h r ∧
      match h.childToParent r.orderId with
      | some p => Completed h p ∧
          ∃ parent ∈ h.orders p, parent.quantity ≤ parent.filledQuantity + max 0 r.lastQuantity
      | none => Completed h r.orderId
  | _ => False

instance (h : ExecutionHandler) : ∀ call, Decidable (Recompletes h call)
  | .trackOrder _ => inferInstanceAs (Decidable False)
  | .trackChildOrder _ _ => inferInstanceAs (Decidable False)
  | .report r =>
    have : Decidable (match h.childToParent r.orderId with
        | some p => Completed h p ∧
            ∃ parent ∈ h.orders p, parent.quantity ≤ parent.filledQuantity + max 0 r.lastQuantity
        | none => Completed h r.orderId) := by
      split
      next p _ =>
        have : Decidable (∃ parent ∈ h.orders p,
            parent.quantity ≤ parent.filledQuantity + max 0 r.lastQuantity) :=
          decidable_of_iff ((h.orders p).any (fun parent =>
            parent.quantity ≤ parent.filledQuantity + max 0 r.lastQuantity) = true) (by
              cases h.orders p <;> simp)
        infer_instance
      next => infer_instance
    inferInstanceAs (Decidable (_ ∧ _ ∧ _))

variable {h : ExecutionHandler} {call : Call} {calls : List Call} {r : ExecutionReport} {p : ℕ}
  {o o' parent child : Order}

theorem next_hasCompletionCallback (h : ExecutionHandler) (call : Call) :
    (next h call).hasCompletionCallback = h.hasCompletionCallback := by
  cases call with
  | report r =>
    obtain ⟨orders, hframe⟩ := h.onExecutionReport_frame r
    rw [next, perform, hframe]
  | _ => rfl

structure Marks (h : ExecutionHandler) (call : Call) : Prop where
  completed : ∀ p, Completed (next h call) p ↔ completes h call = some p ∨ Completed h p
  again : Recompletes h call ↔ ∃ p, completes h call = some p ∧ Completed h p

theorem marks_ignored (hnot : ¬ActsOn h r) (hsame : h.onExecutionReport r = (h, {})) :
    Marks h (.report r) := by
  have hnone : completes h (.report r) = none := by rw [completes, perform, hsame]; rfl
  constructor
  · intro p
    rw [hnone, next, perform, hsame]
    simp
  · rw [hnone]
    constructor
    · rintro ⟨-, hacts, -⟩
      exact absurd hacts hnot
    · rintro ⟨p, hp, -⟩
      cases hp

theorem marks_root (hw : h.WellFormed) (hb : h.hasCompletionCallback = true) (hacts : ActsOn h r)
    (ho : h.orders r.orderId = some o) (hr : o.onReport r = some o')
    (hroot : h.childToParent r.orderId = none) : Marks h (.report r) := by
  have hid : o'.id = r.orderId := (Order.sameTerms_onReport hr).id.trans (hw.keyed ho)
  have hfired : completes h (.report r) = if o'.state = .filled then some r.orderId else none := by
    rw [completes, perform, hw.completion_root ho hr hroot, hb]
    split_ifs <;> simp_all
  have hcompleted : Completed h r.orderId ↔ o.state = .filled := by
    simp [Completed, hroot, ho]
  constructor
  · intro p
    have hnext : Completed (next h (.report r)) p ↔
        if p = r.orderId then o'.state = .filled else Completed h p := by
      rw [next, perform, (hw.onExecutionReport_root ho hr hroot).1]
      split_ifs with hp
      · simp [Completed, hp, hroot]
      · simp [Completed, setOrder_other hp]
    rw [hnext, hfired]
    split_ifs with hp hfilled hfilled
    · simp [hp, hfilled]
    · simp only [hfilled, hp, hcompleted, false_or, false_iff]
      exact fun hbefore => hfilled (Order.onReport_filled hr hbefore)
    · simp [Ne.symm hp]
    · simp
  · simp only [Recompletes, hroot, hb, hacts, hcompleted, hfired]
    constructor
    · rintro ⟨-, -, hbefore⟩
      exact ⟨r.orderId, if_pos (Order.onReport_filled hr hbefore), hcompleted.mpr hbefore⟩
    · rintro ⟨p, hp, hbefore⟩
      split_ifs at hp
      rw [← Option.some.inj hp] at hbefore
      exact ⟨trivial, trivial, hcompleted.mp hbefore⟩

theorem marks_child (hw : h.WellFormed) (hb : h.hasCompletionCallback = true) (hacts : ActsOn h r)
    (hr : h.Reports r p o o' parent) : Marks h (.report r) := by
  have hpid : ((parent.withTrade r).withRemaining (h.dueAfter r p o' parent)).completed.id = p :=
    ((Order.sameTerms_withRemaining _ _).id.trans (parent.sameTerms_withTrade r).id).trans
      (hw.keyed hr.parent)
  have hfired : completes h (.report r) = if (parent.withTrade r).isFull = true then some p else none := by
    rw [completes, perform, hw.completion_child hr, hb, Bool.and_true]
    split_ifs
    · rw [Option.map_some, hpid]
    · rfl
  have hroot := hw.parentNoChild hr.parentOf
  have hcompleted : Completed h p ↔ parent.state = .filled := by
    simp [Completed, hroot, hr.parent]
  have hafter : (h.parentAfter r p o' parent).state = .filled ↔ _ := h.parentAfter_filled
  constructor
  · intro q
    have hnext : Completed (next h (.report r)) q ↔
        if q = p then (h.parentAfter r p o' parent).state = .filled else Completed h q := by
      rw [next, perform, (hw.onExecutionReport_child hr).1]
      split_ifs with hq
      · simp [Completed, hq, hroot]
      · by_cases hqr : q = r.orderId
        · simp [Completed, hqr, hr.parentOf]
        · simp [Completed, setOrder_other hq, setOrder_other hqr]
    rw [hnext, hfired]
    split_ifs with hq hfull hfull
    · simp [hq, hafter, hfull]
    · simp [hq, hafter, hfull, hcompleted]
    · simp [Ne.symm hq]
    · simp
  · simp only [Recompletes, hr.parentOf, hb, hacts, hcompleted, hfired, hr.parent, Option.mem_def,
      Option.some.injEq, exists_eq_left', ← Order.withTrade_isFull]
    constructor
    · rintro ⟨-, -, hbefore, hfull⟩
      exact ⟨p, if_pos hfull, hcompleted.mpr hbefore⟩
    · rintro ⟨q, hq, hbefore⟩
      split_ifs at hq with hfull
      rw [← Option.some.inj hq] at hbefore
      exact ⟨trivial, trivial, hcompleted.mp hbefore, hfull⟩

theorem marks_track (hnone : completes h call = none) (hnot : ¬Recompletes h call)
    (hsame : ∀ p, Completed (next h call) p ↔ Completed h p) : Marks h call := by
  constructor
  · intro p
    simp [hnone, hsame]
  · simp [hnone, hnot]

theorem marks (hw : h.WellFormed) (hb : h.hasCompletionCallback = true) (ht : TracksOpen h call) :
    Marks h call := by
  cases call with
  | trackOrder parent =>
    obtain ⟨hroot, hopen⟩ := ht
    obtain ⟨hstate, hbefore⟩ := hopen parent rfl
    refine marks_track rfl id fun p => ?_
    by_cases hp : p = parent.id
    · rw [hp]
      refine iff_of_false (fun hafter => ?_) hbefore
      obtain ⟨-, o, ho, hfilled⟩ := hafter
      obtain rfl := Option.some.inj (((h.trackOrder_self parent).symm.trans ho :))
      exact hstate hfilled
    · simp [Completed, next, perform, trackOrder_other hp]
  | trackChildOrder q child =>
    obtain ⟨⟨-, hroot, hnew⟩, -⟩ := ht
    refine marks_track rfl id fun p => ?_
    by_cases hp : p = child.id
    · simp [Completed, next, perform, hp, trackChildOrder_childToParent, hnew]
    · simp [Completed, next, perform, trackChildOrder_childToParent, trackChildOrder_other hp, hp]
  | report r =>
    obtain ⟨hnot, hsame⟩ | ⟨hacts, o, o', ho, hr, hroot⟩ | ⟨hacts, p, o, o', parent, hr⟩ :=
      HandlerCalls.report_cases hw r
    · exact marks_ignored hnot hsame
    · exact marks_root hw hb hacts ho hr hroot
    · exact marks_child hw hb hacts hr

theorem completions_fresh_iff (hw : h.WellFormed) (hb : h.hasCompletionCallback = true)
    (ht : Along next TracksOpen h calls) :
    ((completions h calls).Nodup ∧ ∀ p ∈ completions h calls, ¬Completed h p) ↔
      Along next (fun h call => ¬Recompletes h call) h calls := by
  induction calls generalizing h with
  | nil => simp [completions, Along]
  | cons call calls ih =>
    have hm := marks hw hb ht.1
    have hrest := ih (wellFormed_next hw ht.1.1) ((next_hasCompletionCallback h call).trans hb) ht.2
    rw [Along, ← hrest, hm.again]
    simp only [hm.completed, completions]
    cases completes h call with
    | none => simp
    | some q =>
      simp only [Option.toList_some, List.singleton_append, List.nodup_cons, List.forall_mem_cons,
        Option.some.injEq, exists_eq_left', not_or]
      constructor
      · rintro ⟨⟨hq, hnodup⟩, hbefore, hall⟩
        refine ⟨hbefore, hnodup, fun p hp => ⟨?_, hall p hp⟩⟩
        rintro rfl
        exact hq hp
      · rintro ⟨hbefore, hnodup, hall⟩
        exact ⟨⟨fun hq => (hall q hq).1 rfl, hnodup⟩, hbefore, fun p hp => (hall p hp).2⟩

theorem completes_of_no_callback (hw : h.WellFormed) (hb : h.hasCompletionCallback = false) :
    completes h call = none := by
  cases call with
  | report r =>
    rw [completes, perform]
    obtain ⟨-, hsame⟩ | ⟨-, o, o', ho, hr, hroot⟩ | ⟨-, p, o, o', parent, hr⟩ := HandlerCalls.report_cases hw r
    · rw [hsame]
      rfl
    · simp [hw.completion_root ho hr hroot, hb]
    · simp [hw.completion_child hr, hb]
  | _ => rfl

theorem completions_of_no_callback (hw : h.WellFormed) (hb : h.hasCompletionCallback = false)
    (ht : Along next TracksOpen h calls) : completions h calls = [] := by
  induction calls generalizing h with
  | nil => rfl
  | cons call calls ih =>
    rw [completions, completes_of_no_callback hw hb,
      ih (wellFormed_next hw ht.1.1) ((next_hasCompletionCallback h call).trans hb) ht.2]
    rfl

/-- The completion callback is invoked at most once for each order exactly when no report that is acted
on completes an order again. -/
theorem completes_once_iff (hw : h.WellFormed) (hopen : ∀ p, ¬Completed h p)
    (ht : Along next TracksOpen h calls) :
    (completions h calls).Nodup ↔ Along next (fun h call => ¬Recompletes h call) h calls := by
  cases hb : h.hasCompletionCallback with
  | true =>
    rw [← completions_fresh_iff hw hb ht, iff_self_and]
    exact fun _ p _ => hopen p
  | false =>
    rw [completions_of_no_callback hw hb ht]
    refine iff_of_true List.nodup_nil (ht.imp (I := fun h => h.hasCompletionCallback = false) hb ?_ ?_)
    · intro h call hb _
      exact (next_hasCompletionCallback h call).trans hb
    · intro h call hb _ hagain
      cases call with
      | report r =>
        rw [hagain.1] at hb
        cases hb
      | _ => exact hagain

def filledTwice : List Call :=
  [.trackOrder { id := 1, quantity := 10, remainingQuantity := 10, state := .pendingNew },
    .trackChildOrder 1 { id := 2, parentOrderId := 1, quantity := 6, state := .pendingNew },
    .report { orderId := 2, state := .accepted, leavesQuantity := 6 },
    .trackChildOrder 1 { id := 3, parentOrderId := 1, quantity := 4, state := .pendingNew },
    .report { orderId := 3, state := .accepted, leavesQuantity := 4 },
    .report { orderId := 2, state := .filled, lastPrice := 100, lastQuantity := 6, cumQuantity := 6 },
    .report { orderId := 3, state := .filled, lastPrice := 100, lastQuantity := 4, cumQuantity := 4 }]

def listening : ExecutionHandler := { hasCompletionCallback := true }

theorem completes_once_filled : (completions listening filledTwice).Nodup :=
  (completes_once_iff (by constructor <;> simp [listening, getChildren])
    (by simp [Completed, listening]) (by decide)).mpr (by decide)

/-- A late cancel confirmation for a filled child: its parent is completed once more. -/
theorem late_report_completes_again :
    completions listening (filledTwice ++ [.report { orderId := 2, state := .canceled, cumQuantity := 6 }]) =
      [1, 1] := by
  decide

end Klett.Sor.Completion
