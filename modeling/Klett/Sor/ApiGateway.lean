import Klett.Lib.Json
import Klett.Sor.Routing
import Mathlib.Algebra.Order.Ring.Int
import Mathlib.Tactic.Linarith

namespace Klett.Sor.ApiGateway

open Klett.Lib FixedString Json

section Model

structure Response where
  status : List UInt8
  accepted : Bool := false
  message : List UInt8 := []

def sideToString : Side → List UInt8
  | .buy => ascii "buy"
  | .sell => ascii "sell"

def orderTypeName : OrderType → List UInt8
  | .market => ascii "market"
  | .limit => ascii "limit"
  | .ioc => ascii "ioc"
  | .fok => ascii "fok"

def timeInForceName : TimeInForce → List UInt8
  | .gtc => ascii "gtc"
  | .ioc => ascii "ioc"
  | .fok => ascii "fok"
  | .day => ascii "day"
  | .gtd => ascii "gtd"

def strategyName : RoutingStrategy → List UInt8
  | .bestPrice => ascii "best_price"
  | .liquiditySweep => ascii "sweep"
  | .smartIoc => ascii "smart_ioc"
  | .vwap => ascii "vwap"

def named {α : Type} (name : α → List UInt8) (values : List α) (default : α) (text : List UInt8) : α :=
  (values.find? fun v => name v = text).getD default

def sideOf (s : List UInt8) : Side := if s = ascii "sell" then .sell else .buy

variable {α : Type} {P : Platform} (lib : Library P) (req : Json)

def error (message : List UInt8) : Response := { status := ascii "error", message }

end Model

section Specification

variable (P : Platform) (req : Json)

structure Faithful (req : Json) (order : Order) : Prop where
  side : req.get? (ascii "side") = some (.string (sideToString order.side))
  orderType : ∀ v, req.get? (ascii "order_type") = some v → v = .string (orderTypeName order.type)
  timeInForce : ∀ v, req.get? (ascii "time_in_force") = some v → v = .string (timeInForceName order.tif)
  strategy : ∀ v, req.get? (ascii "strategy") = some v → v = .string (strategyName order.strategy)
  symbol : req.get? (ascii "symbol") = some (.string order.symbol.data)
  price : ∀ v, req.get? (ascii "price") = some v → ∃ p, v.number = some p ∧ |order.price - p * priceScale| ≤ 1 / 2

/-- Every field has the type that its read asks for, and the required ones are there. -/
structure Admitted : Prop where
  symbol : ∃ s, req.get? (ascii "symbol") = some (.string s)
  side : ∃ s, req.get? (ascii "side") = some (.string s)
  quantity : ∃ v, req.get? (ascii "quantity") = some v ∧ v.IsNumber
  price : ∀ v, req.get? (ascii "price") = some v → v.IsNumber
  orderType : ∀ v, req.get? (ascii "order_type") = some v → v.IsString
  timeInForce : ∀ v, req.get? (ascii "time_in_force") = some v → v.IsString
  strategy : ∀ v, req.get? (ascii "strategy") = some v → v.IsString
  clientId : ∀ v, req.get? (ascii "client_id") = some v → v.IsString
  clientOrderId : ∀ v, req.get? (ascii "client_order_id") = some v → v.IsNumber

/-- A number with a point that `to_price` takes to the nearest tick, or zero. -/
def PriceExpressible : Json → Prop
  | .float x => |toPrice P x - x * priceScale| ≤ 1 / 2
  | .unsigned n => n.toNat = 0
  | .integer z => z.toInt = 0
  | _ => False

end Specification

section Reads

variable {α β ε : Type} {P : Platform} {lib : Library P} {req : Json} {order : Order} {get : Json → Except Json.Error α}

end Reads

section Names

variable {α : Type} {name : α → List UInt8} {values : List α} {default : α} {text : List UInt8}

end Names

section Prices

variable {P : Platform} {lib : Library P} {v : Json} {price : ℤ}

/-- The ticks of such a price fit into `int64_t`, or the cast would miss them. -/
theorem PriceExpressible.ticks_fit {x : ℚ} (h : PriceExpressible P (.float x)) :
    -2 ^ 63 - 1 / 2 ≤ x * priceScale ∧ x * priceScale ≤ 2 ^ 63 - 1 / 2 := by
  obtain ⟨hlow, hhigh⟩ := Platform.castInt_mem 64 (scaledPrice P x)
  have hleast : (-2 ^ 63 : ℚ) ≤ toPrice P x := by exact_mod_cast hlow
  have hmost : (toPrice P x : ℚ) + 1 ≤ 2 ^ 63 := by exact_mod_cast hhigh
  obtain ⟨hbelow, habove⟩ := abs_le.mp h
  constructor
  · linarith
  · linarith

end Prices

section Main

variable {P : Platform} {lib : Library P} {req : Json} {order : Order}

end Main

end Klett.Sor.ApiGateway
