import Klett.Lib.Decimal
import Klett.Sor.OrderIds

namespace Klett.Sor

open Klett.Lib

namespace FixGateway

open FixedString (ascii)

def afterFirst (needle : List UInt8) : List UInt8 → Option (List UInt8)
  | [] => none
  | b :: s =>
    if needle.isPrefixOf (b :: s) then some ((b :: s).drop needle.length) else afterFirst needle s

/-- The value of a tag in a message with this delimiter. The tag stands at the start or behind a
delimiter. -/
def valueBy (delim : UInt8) (msg search : List UInt8) : Option (List UInt8) :=
  let found :=
    if search.isPrefixOf msg then some (msg.drop search.length) else afterFirst (delim :: search) msg
  found.map fun rest => rest.takeWhile (· ≠ delim)

/-- SOH is tried before the pipe. A tag that is missing reads as empty. -/
def getTag (msg : List UInt8) (tag : String) : List UInt8 :=
  let search := ascii (tag ++ "=")
  ((valueBy 1 msg search).or (valueBy 124 msg search)).getD []

def field {α : Type} (default : α) (parse : List UInt8 → Option α) (s : List UInt8) : Option α :=
  if s.isEmpty then some default else parse s

def sideOf (s : List UInt8) : Side := if s = ascii "2" then .sell else .buy

def typeOf (s : List UInt8) : OrderType := if s = ascii "1" then .market else .limit

def tifOf (s : List UInt8) : TimeInForce :=
  if s = ascii "0" then .day
  else if s = ascii "1" then .gtc
  else if s = ascii "3" then .ioc
  else if s = ascii "4" then .fok
  else .gtc

/-- The order of a NewOrderSingle, without an id. A number that does not parse throws. -/
def newOrderSingle (P : Platform) (msg : List UInt8) : Option Order :=
  (field invalidOrderId Decimal.stoull (getTag msg "11")).bind fun clientOrderId =>
  (field 0 Decimal.stoll (getTag msg "38")).bind fun quantity =>
  (field invalidPrice (parsePrice P) (getTag msg "44")).map fun price =>
    { clientOrderId := clientOrderId
      symbol := .assign (getTag msg "55")
      side := sideOf (getTag msg "54")
      type := typeOf (getTag msg "40")
      tif := tifOf (getTag msg "59")
      price := price
      quantity := quantity
      remainingQuantity := quantity
      clientId := .assign (getTag msg "109") }

/-- OrigClOrdID becomes the id of the order to cancel. -/
def orderCancelRequest (msg : List UInt8) : Option CancelRequest :=
  (field invalidOrderId Decimal.stoull (getTag msg "41")).bind fun orderId =>
  (field invalidOrderId Decimal.stoull (getTag msg "11")).map fun clientOrderId =>
    { orderId := orderId
      clientOrderId := clientOrderId
      symbol := .assign (getTag msg "55")
      side := sideOf (getTag msg "54") }

def onFixMessage {V : Type} [VenueAdapter V] (P : Platform) (msg : List UInt8) : Option (Action V) :=
  if getTag msg "35" = ascii "D" then (newOrderSingle P msg).map .submitOrder
  else if getTag msg "35" = ascii "F" then (orderCancelRequest msg).map .cancelOrder
  else none

def clOrdId (msg : List UInt8) : Option ℕ :=
  if (getTag msg "11").isEmpty then none else Decimal.stoull (getTag msg "11")

def origClOrdId (msg : List UInt8) : Option ℕ :=
  if (getTag msg "41").isEmpty then none else Decimal.stoull (getTag msg "41")

variable {P : Platform} {msg : List UInt8}

theorem newOrderSingle_id {order : Order} (h : newOrderSingle P msg = some order) :
    order.id = invalidOrderId := by
  obtain ⟨c, -, h⟩ := Option.bind_eq_some_iff.mp h
  obtain ⟨q, -, h⟩ := Option.bind_eq_some_iff.mp h
  obtain ⟨p, -, rfl⟩ := Option.map_eq_some_iff.mp h
  rfl

theorem onFixMessage_cases {V : Type} [VenueAdapter V] {a : Action V} (h : onFixMessage P msg = some a) :
    (∃ order, newOrderSingle P msg = some order ∧ a = .submitOrder order) ∨
      ∃ request, orderCancelRequest msg = some request ∧ a = .cancelOrder request := by
  unfold onFixMessage at h
  split_ifs at h
  · obtain ⟨order, horder, rfl⟩ := Option.map_eq_some_iff.mp h
    exact .inl ⟨order, horder, rfl⟩
  · obtain ⟨request, hrequest, rfl⟩ := Option.map_eq_some_iff.mp h
    exact .inr ⟨request, hrequest, rfl⟩

theorem orderCancelRequest_orderId {request : CancelRequest} (h : orderCancelRequest msg = some request)
    {c : ℕ} (hc : origClOrdId msg = some c) : request.orderId = c := by
  obtain ⟨id, hid, h⟩ := Option.bind_eq_some_iff.mp h
  obtain ⟨clientOrderId, -, rfl⟩ := Option.map_eq_some_iff.mp h
  unfold origClOrdId at hc
  unfold field at hid
  split_ifs at hc hid
  rw [hc] at hid
  exact (Option.some.inj hid).symm

end FixGateway

inductive FixAction (V : Type) [VenueAdapter V]
  | message (raw : List UInt8)
  | direct (a : Action V)

namespace FixAction

variable {V : Type} [VenueAdapter V]

def toAction (P : Platform) : FixAction V → Option (Action V)
  | message raw => FixGateway.onFixMessage P raw
  | direct a => some a

def clOrdId : FixAction V → Option ℕ
  | message raw => FixGateway.clOrdId raw
  | direct _ => none

def origClOrdId : FixAction V → Option ℕ
  | message raw => FixGateway.origClOrdId raw
  | direct _ => none

end FixAction

namespace System

variable {V : Type} [VenueAdapter V] (P : Platform)

/-- A message that does not come to a call is ignored, or its exception goes to the caller. -/
def fixMachine : Machine (System V) (FixAction V) Event where
  step s a :=
    match a.toAction P with
    | some b => s.step P b
    | none => some (s, [])

/-- The constructor of the FIX gateway takes the fill callback for its own reports, which change
nothing here, unless `initialize` comes later and takes it back. -/
def withFix (s : System V) (initializedLater : Bool) : System V :=
  s.setGateway { s.gateway with
    execHandler := { s.gateway.execHandler with hasFillCallback := initializedLater } }

end System

end Klett.Sor
