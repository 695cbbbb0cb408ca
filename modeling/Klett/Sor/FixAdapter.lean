import Klett.Lib.Decimal
import Klett.Sor.Gateway

namespace Klett.Sor

open Klett.Lib FixedString

inductive FixType
  | newOrderSingle
  | orderCancelRequest
  | executionReport
  | heartbeat
  | logon
  | logout
  deriving DecidableEq

structure FixMessage where
  type : FixType
  fields : ℤ → Option (List UInt8) := fun _ => none

namespace FixMessage

def msgType : ℤ := 35
def clOrdId : ℤ := 11
def orderId : ℤ := 37
def execId : ℤ := 17
def ordStatus : ℤ := 39
def symbol : ℤ := 55
def side : ℤ := 54
def orderQty : ℤ := 38
def price : ℤ := 44
def lastPx : ℤ := 31
def lastQty : ℤ := 32
def leavesQty : ℤ := 151
def cumQty : ℤ := 14
def avgPx : ℤ := 6
def text : ℤ := 58
def ordType : ℤ := 40
def timeInForce : ℤ := 59
def senderCompId : ℤ := 49
def targetCompId : ℤ := 56
def msgSeqNum : ℤ := 34
def origClOrdId : ℤ := 41

def set (msg : FixMessage) (tag : ℤ) (value : List UInt8) : FixMessage :=
  { msg with fields := Function.update msg.fields tag (some value) }

def get (msg : FixMessage) (tag : ℤ) : List UInt8 := (msg.fields tag).getD []

variable {msg : FixMessage} {tag other : ℤ} {value : List UInt8}

@[simp] theorem set_type : (msg.set tag value).type = msg.type := rfl

theorem set_other (h : other ≠ tag) : (msg.set tag value).fields other = msg.fields other :=
  Function.update_of_ne h ..

theorem get_set_other (h : other ≠ tag) : (msg.set tag value).get other = msg.get other := by
  unfold get
  rw [set_other h]

end FixMessage

def sideToFix : Side → List UInt8
  | .buy => ascii "1"
  | .sell => ascii "2"

def ordTypeToFix : OrderType → List UInt8
  | .market => ascii "1"
  | .limit | .ioc | .fok => ascii "2"

def tifToFix (tif : TimeInForce) (type : OrderType) : List UInt8 :=
  if type = .ioc then ascii "3"
  else if type = .fok then ascii "4"
  else
    match tif with
    | .day => ascii "0"
    | .gtc => ascii "1"
    | .ioc => ascii "3"
    | .fok => ascii "4"
    | .gtd => ascii "6"

def ordStatusFromFix (s : List UInt8) : OrderState :=
  if s = ascii "0" then .accepted
  else if s = ascii "A" then .pendingNew
  else if s = ascii "1" then .partiallyFilled
  else if s = ascii "2" then .filled
  else if s = ascii "4" then .canceled
  else if s = ascii "6" then .pendingCancel
  else if s = ascii "8" then .rejected
  else if s = ascii "C" then .expired
  else if s = ascii "E" then .pendingReplace
  else .new

/-- Trailing zeros go, up to one behind the point. The text is given backwards. -/
def trimZeros : List UInt8 → List UInt8
  | 48 :: b :: s => if b = 46 then 48 :: b :: s else trimZeros (b :: s)
  | s => s

def priceToStr (p : ℤ) : List UInt8 :=
  let whole := Decimal.ofNat (p.natAbs / priceScale.natAbs)
  let fraction := Decimal.ofNat (p.natAbs % priceScale.natAbs)
  let padded := List.replicate (8 - fraction.length) 48 ++ fraction
  let text := (if p < 0 then [45] else []) ++ whole ++ 46 :: padded
  (trimZeros text.reverse).reverse

def priceFromStr (P : Platform) (s : List UInt8) : Option ℤ :=
  if s.isEmpty then some 0 else parsePrice P s

def qtyFromStr (s : List UInt8) : Option ℤ := if s.isEmpty then some 0 else Decimal.stoll s

def idToStr (id : ℕ) : List UInt8 := Decimal.ofNat id

def idFromStr (s : List UInt8) : Option ℕ := if s.isEmpty then some invalidOrderId else Decimal.stoull s

structure FixAdapterConfig where
  venueId : ℕ := 2
  senderCompId : List UInt8 := ascii "SOR_CLIENT"
  targetCompId : List UInt8 := ascii "EXCHANGE"

structure FixAdapter where
  config : FixAdapterConfig
  connected : Bool := false
  incomingQueue : List FixMessage := []
  sentLog : List FixMessage := []
  activeOrders : ℕ → Option Order := fun _ => none
  msgSeqNum : UInt32 := 0

namespace FixAdapter

open FixMessage

variable (x : FixAdapter)

def orderToFix (order : Order) : FixMessage :=
  let msg := { type := .newOrderSingle : FixMessage }
    |>.set msgType (ascii "D")
    |>.set clOrdId (idToStr order.clientOrderId)
    |>.set symbol order.symbol.data
    |>.set side (sideToFix order.side)
    |>.set orderQty (Decimal.ofInt order.quantity)
    |>.set ordType (ordTypeToFix order.type)
    |>.set timeInForce (tifToFix order.tif order.type)
    |>.set senderCompId x.config.senderCompId
    |>.set targetCompId x.config.targetCompId
  if order.type ≠ .market ∧ order.price ≠ invalidPrice then msg.set price (priceToStr order.price) else msg

def cancelToFix (request : CancelRequest) : FixMessage :=
  { type := .orderCancelRequest : FixMessage }
    |>.set msgType (ascii "F")
    |>.set clOrdId (idToStr request.clientOrderId)
    |>.set origClOrdId (idToStr request.orderId)
    |>.set symbol request.symbol.data
    |>.set side (sideToFix request.side)
    |>.set senderCompId x.config.senderCompId
    |>.set targetCompId x.config.targetCompId

/-- The id is the OrderID, or the ClOrdID without one. A number that does not parse throws. -/
def execFromFix (P : Platform) (msg : FixMessage) : Option ExecutionReport :=
  (idFromStr (if (msg.get orderId).isEmpty then msg.get clOrdId else msg.get orderId)).bind fun id =>
  (idFromStr (msg.get execId)).bind fun exec =>
  (priceFromStr P (msg.get lastPx)).bind fun lastPrice =>
  (qtyFromStr (msg.get lastQty)).bind fun lastQuantity =>
  (priceFromStr P (msg.get avgPx)).bind fun avgPrice =>
  (qtyFromStr (msg.get cumQty)).bind fun cumQuantity =>
  (qtyFromStr (msg.get leavesQty)).map fun leavesQuantity =>
    { orderId := id
      execId := exec
      state := ordStatusFromFix (msg.get ordStatus)
      lastPrice := lastPrice
      lastQuantity := lastQuantity
      avgPrice := avgPrice
      cumQuantity := cumQuantity
      leavesQuantity := leavesQuantity
      text := .assign (msg.get text) }

def send (msg : FixMessage) : FixAdapter :=
  { x with
    msgSeqNum := x.msgSeqNum + 1
    sentLog := x.sentLog ++ [msg.set FixMessage.msgSeqNum (Decimal.ofNat (x.msgSeqNum + 1).toNat)] }

def session (type : FixType) (code : String) : FixMessage :=
  { type := type : FixMessage }
    |>.set msgType (ascii code)
    |>.set senderCompId x.config.senderCompId
    |>.set targetCompId x.config.targetCompId

def connect : Bool × FixAdapter :=
  if x.connected then (false, x) else (true, { x with connected := true }.send (x.session .logon "A"))

def disconnect : FixAdapter :=
  if x.connected then { x.send (x.session .logout "5") with connected := false } else x

/-- An order that is active already is not replaced. -/
def sendOrder (order : Order) : Bool × FixAdapter × List ExecutionReport :=
  if !x.connected then (false, x, [])
  else
    let active := if (x.activeOrders order.id).isSome then x.activeOrders
      else Function.update x.activeOrders order.id (some order)
    (true, { x with activeOrders := active }.send (x.orderToFix order), [])

def cancelOrder (request : CancelRequest) : Bool × FixAdapter :=
  if !x.connected then (false, x)
  else if (x.activeOrders request.orderId).isSome then (true, x.send (x.cancelToFix request))
  else (false, x)

def updateActive (report : ExecutionReport) : FixAdapter :=
  match x.activeOrders report.orderId with
  | none => x
  | some order =>
    { x with
      activeOrders := Function.update x.activeOrders report.orderId <|
        if report.state.isTerminal then none
        else some { order with
          filledQuantity := report.cumQuantity
          remainingQuantity := report.leavesQuantity
          avgFillPrice := report.avgPrice } }

/-- An exception ends the loop, and what is behind the message stays in the queue. -/
def processQueue (P : Platform) : FixAdapter → List FixMessage → FixAdapter × List ExecutionReport
  | x, [] => ({ x with incomingQueue := [] }, [])
  | x, msg :: msgs =>
    if msg.type ≠ .executionReport then processQueue P x msgs
    else
      match execFromFix P msg with
      | none => ({ x with incomingQueue := msgs }, [])
      | some report =>
        let report := { report with venueId := x.config.venueId }
        let (x, reports) := processQueue P (x.updateActive report) msgs
        (x, report :: reports)

def processIncoming (P : Platform) : FixAdapter × List ExecutionReport := processQueue P x x.incomingQueue

def injectMessage (msg : FixMessage) : FixAdapter := { x with incomingQueue := x.incomingQueue ++ [msg] }

end FixAdapter

inductive FixOp
  | connect
  | disconnect
  | processIncoming
  | injectMessage (msg : FixMessage)

instance : VenueAdapter FixAdapter where
  Op := FixOp
  disconnect := FixAdapter.disconnect
  sendOrder := FixAdapter.sendOrder
  cancelOrder x request := ((x.cancelOrder request).1, (x.cancelOrder request).2, [])
  run P x
    | .connect => some (x.connect.2, [])
    | .disconnect => some (x.disconnect, [])
    | .processIncoming => some (x.processIncoming P)
    | .injectMessage msg => some (x.injectMessage msg, [])

end Klett.Sor
