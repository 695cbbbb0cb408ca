import Mathlib.Logic.Function.Basic
import Klett.Sor.OrderStateMachine

namespace Klett.Sor

def reportEvent : OrderState → Option OrderEvent
  | .accepted => some .acknowledge
  | .partiallyFilled => some .partialFill
  | .filled => some .fill
  | .canceled => some .cancelAck
  | .rejected => some .reject
  | .expired => some .expire
  | .pendingCancel => some .requestCancel
  | .pendingReplace => some .requestReplace
  | .new | .pendingNew => none

namespace Order

/-- A cancel that the venue decided on first passes through `PendingCancel`. -/
def beforeCancel (o : Order) (reported : OrderState) : Order :=
  if reported = .canceled ∧ (o.state = .accepted ∨ o.state = .partiallyFilled) then
    o.apply .requestCancel
  else o

def recordFill (o : Order) (report : ExecutionReport) : Order :=
  if report.lastQuantity > 0 then
    { o with
      filledQuantity := report.cumQuantity
      remainingQuantity := o.quantity - report.cumQuantity
      avgFillPrice :=
        if report.cumQuantity > 0 then
          (o.avgFillPrice * o.filledQuantity + report.lastPrice * report.lastQuantity).tdiv
            report.cumQuantity
        else o.avgFillPrice }
  else o

def onReport (o : Order) (report : ExecutionReport) : Option Order :=
  (reportEvent report.state).map fun event =>
    ((o.beforeCancel report.state).apply event).recordFill report

/-- `update_parent_from_child`. -/
def updateFromChild (parent : Order) (report : ExecutionReport) : Order :=
  { parent with
    filledQuantity := parent.filledQuantity + report.lastQuantity
    remainingQuantity := parent.quantity - (parent.filledQuantity + report.lastQuantity)
    avgFillPrice :=
      if parent.filledQuantity + report.lastQuantity > 0 then
        (parent.avgFillPrice * parent.filledQuantity + report.lastPrice * report.lastQuantity).tdiv
          (parent.filledQuantity + report.lastQuantity)
      else parent.avgFillPrice
    state :=
      if parent.state = .accepted ∨ parent.state = .pendingNew ∨ parent.state = .new then
        .partiallyFilled
      else parent.state
    version := parent.version + 1 }

def withTrade (parent : Order) (report : ExecutionReport) : Order :=
  if report.lastQuantity > 0 then parent.updateFromChild report else parent

def withRemaining (parent : Order) (rerouteDue : Bool) : Order :=
  if rerouteDue then { parent with remainingQuantity := parent.leavesQty } else parent

def completed (parent : Order) : Order :=
  { parent with state := .filled, remainingQuantity := 0, version := parent.version + 1 }

def isFull (parent : Order) : Bool := parent.filledQuantity ≥ parent.quantity

def withCompletion (parent : Order) : Order := if parent.isFull then parent.completed else parent

end Order

structure FillRecord where
  orderId : ℕ := invalidOrderId
  execId : ℕ := invalidOrderId
  symbol : Symbol := default
  side : Side := .buy
  price : ℤ := 0
  quantity : ℤ := 0
  venueId : ℕ := 0
  fee : ℚ := 0

structure FillManager where
  allFills : List FillRecord := []
  orderFills : ℕ → List ℕ := fun _ => []
  symbolFills : Symbol → List ℕ := fun _ => []

def FillManager.recordFill (m : FillManager) (fill : FillRecord) : FillManager where
  allFills := m.allFills ++ [fill]
  orderFills := Function.update m.orderFills fill.orderId
    (m.orderFills fill.orderId ++ [m.allFills.length])
  symbolFills := Function.update m.symbolFills fill.symbol
    (m.symbolFills fill.symbol ++ [m.allFills.length])

/-- What a report has set off, to be called once the lock is released: first the fill callback, then
a reroute of a parent, then the completion callback. -/
structure Deferred where
  fill : Option (Order × ExecutionReport) := none
  reroute : Option ℕ := none
  completion : Option Order := none
  deriving DecidableEq

structure ExecutionHandler where
  orders : ℕ → Option Order := fun _ => none
  parentToChildren : ℕ → Option (List ℕ) := fun _ => none
  childToParent : ℕ → Option ℕ := fun _ => none
  hasFillCallback : Bool := false
  hasCompletionCallback : Bool := false
  hasRerouteCallback : Bool := false

namespace ExecutionHandler

variable (h : ExecutionHandler)

def setOrder (id : ℕ) (order : Order) : ExecutionHandler :=
  { h with orders := Function.update h.orders id (some order) }

/-- Tracking an id again overwrites its order and keeps its children. -/
def trackOrder (parent : Order) : ExecutionHandler :=
  { h.setOrder parent.id parent with
    parentToChildren := Function.update h.parentToChildren parent.id
      (some ((h.parentToChildren parent.id).getD [])) }

def getChildren (parentId : ℕ) : List ℕ := (h.parentToChildren parentId).getD []

def trackChildOrder (parentId : ℕ) (child : Order) : ExecutionHandler :=
  { h.setOrder child.id child with
    parentToChildren := Function.update h.parentToChildren parentId
      (some (h.getChildren parentId ++ [child.id]))
    childToParent := Function.update h.childToParent child.id (some parentId) }

def getOrder (id : ℕ) : Option Order := h.orders id

/-- A child that is not in the map counts as terminal. -/
def allTerminal (parentId : ℕ) : Bool :=
  (h.getChildren parentId).all fun cid =>
    match h.orders cid with
    | some c => c.isTerminal
    | none => true

/-- A child ended unfilled, its parent is open and has something left, and no sibling is live. -/
def rerouteDue (child parent : Order) : Bool :=
  child.isTerminal && child.state ≠ .filled && !parent.isTerminal && parent.leavesQty > 0 &&
    h.allTerminal parent.id

def updateParent (childId parentId : ℕ) (report : ExecutionReport) :
    ExecutionHandler × Option ℕ × Option Order :=
  match h.orders parentId with
  | none => (h, none, none)
  | some parent =>
    let parent := parent.withTrade report
    let h := h.setOrder parentId parent
    let due :=
      match h.orders childId with
      | some child => h.rerouteDue child parent
      | none => false
    let parent := parent.withRemaining due
    (h.setOrder parentId parent.withCompletion,
      if due && h.hasRerouteCallback then some parent.id else none,
      if parent.isFull && h.hasCompletionCallback then some parent.completed else none)

def onExecutionReport (report : ExecutionReport) : ExecutionHandler × Deferred :=
  match h.orders report.orderId with
  | none => (h, {})
  | some order =>
    match order.onReport report with
    | none => (h, {})
    | some order =>
      let h := h.setOrder report.orderId order
      let (h, reroute, completion) :=
        match h.childToParent order.id with
        | some parentId => h.updateParent report.orderId parentId report
        | none =>
          (h, none,
            if order.state = OrderState.filled ∧ h.hasCompletionCallback then some order else none)
      let fill :=
        if report.lastQuantity > 0 ∧ h.hasFillCallback then
          (h.orders report.orderId).map fun o => (o, report)
        else none
      (h, { fill := fill, reroute := reroute, completion := completion })

def rerouted (d : Deferred) : Option Order := d.reroute.bind h.orders

end ExecutionHandler

namespace Order

variable (o : Order) (report : ExecutionReport)

@[simp] theorem beforeCancel_id (s : OrderState) : (o.beforeCancel s).id = o.id := by
  unfold beforeCancel
  split <;> simp

@[simp] theorem beforeCancel_quantity (s : OrderState) : (o.beforeCancel s).quantity = o.quantity := by
  unfold beforeCancel
  split <;> simp

@[simp] theorem beforeCancel_filledQuantity (s : OrderState) :
    (o.beforeCancel s).filledQuantity = o.filledQuantity := by
  unfold beforeCancel
  split <;> simp

@[simp] theorem recordFill_id : (o.recordFill report).id = o.id := by
  unfold recordFill
  split <;> rfl

@[simp] theorem recordFill_state : (o.recordFill report).state = o.state := by
  unfold recordFill
  split <;> rfl

@[simp] theorem recordFill_quantity : (o.recordFill report).quantity = o.quantity := by
  unfold recordFill
  split <;> rfl

theorem recordFill_filledQuantity : (o.recordFill report).filledQuantity =
    if report.lastQuantity > 0 then report.cumQuantity else o.filledQuantity := by
  unfold recordFill
  split <;> rfl

variable {o report}

theorem onReport_fields {o' : Order} (h : o.onReport report = some o') :
    ∃ event, reportEvent report.state = some event ∧ o'.id = o.id ∧ o'.quantity = o.quantity ∧
      o'.state = ((o.beforeCancel report.state).apply event).state ∧
      o'.filledQuantity = if report.lastQuantity > 0 then report.cumQuantity else o.filledQuantity := by
  obtain ⟨event, hevent, rfl⟩ := Option.map_eq_some_iff.mp h
  exact ⟨event, hevent, by simp, by simp, by simp, by simp [recordFill_filledQuantity]⟩

end Order

namespace ExecutionHandler

variable {h : ExecutionHandler}

@[simp] theorem setOrder_self (id : ℕ) (o : Order) : (h.setOrder id o).orders id = some o := by
  simp [setOrder]

theorem setOrder_other {id other : ℕ} (hne : other ≠ id) (o : Order) :
    (h.setOrder id o).orders other = h.orders other := by
  simp [setOrder, hne]

theorem setOrder_setOrder (id : ℕ) (o o' : Order) :
    (h.setOrder id o).setOrder id o' = h.setOrder id o' := by
  simp [setOrder]

@[simp] theorem setOrder_childToParent (id : ℕ) (o : Order) :
    (h.setOrder id o).childToParent = h.childToParent := rfl

@[simp] theorem setOrder_getChildren (id : ℕ) (o : Order) :
    (h.setOrder id o).getChildren = h.getChildren := rfl

@[simp] theorem trackOrder_self (o : Order) : (h.trackOrder o).orders o.id = some o := by
  simp [trackOrder]

theorem trackOrder_other {id : ℕ} {o : Order} (hne : id ≠ o.id) :
    (h.trackOrder o).orders id = h.orders id := setOrder_other hne o

@[simp] theorem trackOrder_childToParent (o : Order) : (h.trackOrder o).childToParent = h.childToParent := rfl

@[simp] theorem trackOrder_getChildren (o : Order) (p : ℕ) :
    (h.trackOrder o).getChildren p = h.getChildren p := by
  by_cases hp : p = o.id
  · simp [trackOrder, getChildren, hp]
  · simp [trackOrder, getChildren, hp]

variable {p c : ℕ} {child : Order}

@[simp] theorem trackChildOrder_self : (h.trackChildOrder p child).orders child.id = some child := by
  simp [trackChildOrder]

theorem trackChildOrder_other (hne : c ≠ child.id) :
    (h.trackChildOrder p child).orders c = h.orders c := setOrder_other hne child

theorem trackChildOrder_childToParent : (h.trackChildOrder p child).childToParent c =
    if c = child.id then some p else h.childToParent c := by
  simp [trackChildOrder, Function.update_apply]

theorem trackChildOrder_getChildren (q : ℕ) : (h.trackChildOrder p child).getChildren q =
    if q = p then h.getChildren p ++ [child.id] else h.getChildren q := by
  by_cases hq : q = p
  · simp [trackChildOrder, getChildren, hq]
  · simp [trackChildOrder, getChildren, hq]

theorem updateParent_frame (childId parentId : ℕ) (report : ExecutionReport) :
    (h.updateParent childId parentId report).1 = h ∨
      ∃ o, (h.updateParent childId parentId report).1 = h.setOrder parentId o := by
  unfold updateParent
  split
  · exact .inl rfl
  · exact .inr ⟨_, setOrder_setOrder _ _ _⟩

theorem updateParent_other {childId parentId other : ℕ} {report : ExecutionReport}
    (hne : other ≠ parentId) :
    (h.updateParent childId parentId report).1.orders other = h.orders other := by
  obtain hsame | ⟨o, hset⟩ := h.updateParent_frame childId parentId report
  · rw [hsame]
  · rw [hset, setOrder_other hne]

theorem onExecutionReport_frame (report : ExecutionReport) :
    ∃ orders, (h.onExecutionReport report).1 = { h with orders := orders } := by
  unfold onExecutionReport
  split
  · exact ⟨h.orders, rfl⟩
  · split
    · exact ⟨h.orders, rfl⟩
    next o _ =>
      simp only [setOrder_childToParent]
      cases h.childToParent o.id with
      | none => exact ⟨_, rfl⟩
      | some parentId =>
        simp only
        obtain hsame | ⟨p, hset⟩ := (h.setOrder report.orderId o).updateParent_frame report.orderId
          parentId report
        · exact ⟨_, hsame⟩
        · exact ⟨_, hset⟩

theorem onExecutionReport_self {report : ExecutionReport} {o o' : Order}
    (ho : h.orders report.orderId = some o) (hr : o.onReport report = some o')
    (hself : h.childToParent o'.id ≠ some report.orderId) :
    (h.onExecutionReport report).1.orders report.orderId = some o' := by
  unfold onExecutionReport
  simp only [ho, hr, setOrder_childToParent]
  cases hparent : h.childToParent o'.id with
  | none => simp
  | some parentId =>
    have hne : report.orderId ≠ parentId := fun he => hself (by rw [hparent, he])
    simp only
    rw [updateParent_other hne, setOrder_self]

end ExecutionHandler

end Klett.Sor
