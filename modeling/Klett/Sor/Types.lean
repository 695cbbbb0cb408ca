import Mathlib.Algebra.Group.Int.Defs
import Mathlib.Algebra.Group.Nat.Defs
import Mathlib.Data.Rat.Defs

namespace Klett.Sor

/-!
`Price` and `Quantity` of the source (`int64_t`) are `ℤ` here, and so are clock readings; `OrderId`
and `VenueId` are `ℕ`. Signed overflow is undefined there and not modelled.
-/

def priceScale : ℤ := 100000000

/-- `std::numeric_limits<int64_t>::max()`. -/
def invalidPrice : ℤ := 2 ^ 63 - 1

def invalidOrderId : ℕ := 0

inductive Side
  | buy
  | sell
  deriving DecidableEq, Repr

inductive OrderType
  | limit
  | market
  | ioc
  | fok
  deriving DecidableEq, Repr

inductive TimeInForce
  | gtc
  | ioc
  | fok
  | gtd
  | day
  deriving DecidableEq, Repr

inductive OrderState
  | new
  | pendingNew
  | accepted
  | partiallyFilled
  | filled
  | pendingCancel
  | canceled
  | rejected
  | expired
  | pendingReplace
  deriving DecidableEq, Repr

inductive RoutingStrategy
  | bestPrice
  | liquiditySweep
  | smartIoc
  | vwap
  deriving DecidableEq, Repr

structure FixedString (n : ℕ) where
  data : List UInt8
  fits : data.length ≤ n
  deriving DecidableEq

namespace FixedString

variable {n : ℕ}

def assign (s : List UInt8) : FixedString n := ⟨s.take n, List.length_take_le n s⟩

def empty (s : FixedString n) : Bool := s.data.isEmpty

instance : Inhabited (FixedString n) := ⟨assign []⟩

def ascii (s : String) : List UInt8 := s.toList.map (fun c => c.val.toUInt8)

end FixedString

abbrev Symbol := FixedString 16
abbrev ClientId := FixedString 32

structure Order where
  id : ℕ := invalidOrderId
  clientOrderId : ℕ := invalidOrderId
  parentOrderId : ℕ := invalidOrderId
  symbol : Symbol := default
  side : Side := .buy
  type : OrderType := .limit
  tif : TimeInForce := .gtc
  price : ℤ := invalidPrice
  quantity : ℤ := 0
  filledQuantity : ℤ := 0
  remainingQuantity : ℤ := 0
  avgFillPrice : ℤ := 0
  targetVenue : ℕ := 0
  strategy : RoutingStrategy := .bestPrice
  state : OrderState := .new
  clientId : ClientId := default
  version : UInt32 := 0
  deriving DecidableEq

namespace OrderState

def isTerminal : OrderState → Bool
  | filled | canceled | rejected | expired => true
  | _ => false

def isActive : OrderState → Bool
  | new | pendingNew | accepted | partiallyFilled | pendingCancel | pendingReplace => true
  | _ => false

end OrderState

namespace Order

def leavesQty (o : Order) : ℤ := o.quantity - o.filledQuantity

def isTerminal (o : Order) : Bool := o.state.isTerminal

def isActive (o : Order) : Bool := o.state.isActive

def isImmediate (o : Order) : Prop :=
  o.type = .ioc ∨ o.type = .fok ∨ o.tif = .ioc ∨ o.tif = .fok

instance (o : Order) : Decidable o.isImmediate :=
  inferInstanceAs (Decidable (_ ∨ _ ∨ _ ∨ _))

end Order

structure ExecutionReport where
  orderId : ℕ := invalidOrderId
  execId : ℕ := invalidOrderId
  state : OrderState := .new
  lastPrice : ℤ := 0
  lastQuantity : ℤ := 0
  avgPrice : ℤ := 0
  cumQuantity : ℤ := 0
  leavesQuantity : ℤ := 0
  venueId : ℕ := 0
  text : FixedString 64 := default
  deriving DecidableEq

structure CancelRequest where
  orderId : ℕ := invalidOrderId
  clientOrderId : ℕ := invalidOrderId
  symbol : Symbol := default
  side : Side := .buy
  deriving DecidableEq

namespace LimitPrice

def Respects (side : Side) (limit price : ℤ) : Prop :=
  match side with
  | .buy => price ≤ limit
  | .sell => limit ≤ price

instance (side : Side) (limit price : ℤ) : Decidable (Respects side limit price) := by
  unfold Respects
  cases side <;> infer_instance

end LimitPrice

end Klett.Sor
