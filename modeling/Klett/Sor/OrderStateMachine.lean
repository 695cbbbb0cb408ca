import Klett.Sor.Types

namespace Klett.Sor

inductive OrderEvent
  | submit
  | acknowledge
  | partialFill
  | fill
  | requestCancel
  | cancelAck
  | reject
  | expire
  | requestReplace
  | replaceAck
  deriving DecidableEq, Repr

namespace OrderStateMachine

/-- The transition table; a cell left at `INVALID_STATE` is `none`. -/
def apply : OrderState → OrderEvent → Option OrderState
  | .new, .submit => some .pendingNew
  | .pendingNew, .acknowledge => some .accepted
  | .pendingNew, .reject => some .rejected
  | .accepted, .partialFill => some .partiallyFilled
  | .accepted, .fill => some .filled
  | .accepted, .requestCancel => some .pendingCancel
  | .accepted, .expire => some .expired
  | .accepted, .requestReplace => some .pendingReplace
  | .accepted, .reject => some .rejected
  | .partiallyFilled, .partialFill => some .partiallyFilled
  | .partiallyFilled, .fill => some .filled
  | .partiallyFilled, .requestCancel => some .pendingCancel
  | .partiallyFilled, .expire => some .expired
  | .pendingCancel, .cancelAck => some .canceled
  | .pendingCancel, .fill => some .filled
  | .pendingCancel, .partialFill => some .pendingCancel
  | .pendingCancel, .reject => some .accepted
  | .pendingReplace, .replaceAck => some .accepted
  | .pendingReplace, .reject => some .accepted
  | .pendingReplace, .fill => some .filled
  | _, _ => none

def isValidTransition (s : OrderState) (e : OrderEvent) : Bool := (apply s e).isSome

theorem apply_terminal {s : OrderState} (h : s.isTerminal = true) (e : OrderEvent) :
    apply s e = none := by
  cases s <;> first | rfl | simp [OrderState.isTerminal] at h

end OrderStateMachine

namespace Order

/-- `OrderStateMachine::apply` on an order: an undefined transition leaves it unchanged. -/
def apply (o : Order) (e : OrderEvent) : Order :=
  match OrderStateMachine.apply o.state e with
  | some s => { o with state := s, version := o.version + 1 }
  | none => o

variable (o : Order) (e : OrderEvent)

theorem apply_state : (o.apply e).state = (OrderStateMachine.apply o.state e).getD o.state := by
  unfold apply
  split <;> simp [*]

theorem apply_eq : ∃ s v, o.apply e = { o with state := s, version := v } := by
  unfold apply
  split
  · exact ⟨_, _, rfl⟩
  · exact ⟨o.state, o.version, rfl⟩

@[simp] theorem apply_id : (o.apply e).id = o.id := by
  obtain ⟨s, v, h⟩ := o.apply_eq e
  rw [h]

@[simp] theorem apply_symbol : (o.apply e).symbol = o.symbol := by
  obtain ⟨s, v, h⟩ := o.apply_eq e
  rw [h]

@[simp] theorem apply_side : (o.apply e).side = o.side := by
  obtain ⟨s, v, h⟩ := o.apply_eq e
  rw [h]

@[simp] theorem apply_type : (o.apply e).type = o.type := by
  obtain ⟨s, v, h⟩ := o.apply_eq e
  rw [h]

@[simp] theorem apply_tif : (o.apply e).tif = o.tif := by
  obtain ⟨s, v, h⟩ := o.apply_eq e
  rw [h]

@[simp] theorem apply_quantity : (o.apply e).quantity = o.quantity := by
  obtain ⟨s, v, h⟩ := o.apply_eq e
  rw [h]

@[simp] theorem apply_filledQuantity : (o.apply e).filledQuantity = o.filledQuantity := by
  obtain ⟨s, v, h⟩ := o.apply_eq e
  rw [h]

@[simp] theorem apply_targetVenue : (o.apply e).targetVenue = o.targetVenue := by
  obtain ⟨s, v, h⟩ := o.apply_eq e
  rw [h]

theorem apply_of_terminal (h : o.isTerminal = true) : o.apply e = o := by
  simp [apply, OrderStateMachine.apply_terminal h e]

end Order

end Klett.Sor
