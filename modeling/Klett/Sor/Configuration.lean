import Klett.Sor.RiskManager
import Klett.Sor.Routing

namespace Klett.Sor

open Klett.Lib

structure RiskSection where
  maxOrderQuantity : Option ℤ := none
  maxOrderNotional : Option ℚ := none
  maxPositionPerSymbol : Option ℤ := none
  maxPositionNotional : Option ℚ := none
  maxPositionQuantity : Option ℤ := none
  /-- `max_orders_per_second` under `rate_limiter`. -/
  rateLimiter : Option ℤ := none
  maxOrdersPerSecond : Option ℤ := none
  maxOpenOrders : Option ℤ := none
  /-- `max_loss_threshold` under `kill_switch`. -/
  killSwitch : Option ℚ := none
  maxLoss : Option ℚ := none

structure RiskConfig where
  maxOrderQuantity : ℤ := 10000
  maxOrderNotional : ℤ := 0
  maxPositionNotional : ℤ := 0
  maxPositionQuantity : ℤ := 0
  maxOrdersPerSecond : ℤ := 100
  maxOpenOrders : ℤ := 1000
  maxLoss : ℤ := 0
  deriving DecidableEq

/-- `parse_yaml` on the risk section. Of two keys for one limit the later one wins. -/
def RiskSection.parse (P : Platform) (r : RiskSection) : RiskConfig :=
  let default : RiskConfig := {}
  { maxOrderQuantity := r.maxOrderQuantity.getD default.maxOrderQuantity
    maxOrderNotional := (r.maxOrderNotional.map (toPrice P)).getD default.maxOrderNotional
    maxPositionNotional := (r.maxPositionNotional.map (toPrice P)).getD default.maxPositionNotional
    maxPositionQuantity :=
      (r.maxPositionQuantity.or r.maxPositionPerSymbol).getD default.maxPositionQuantity
    maxOrdersPerSecond := (r.maxOrdersPerSecond.or r.rateLimiter).getD default.maxOrdersPerSecond
    maxOpenOrders := r.maxOpenOrders.getD default.maxOpenOrders
    maxLoss := ((r.maxLoss.or r.killSwitch).map (toPrice P)).getD default.maxLoss }

namespace RiskConfig

variable (config : RiskConfig)

/-- The risk part of `validate_config`. `main` goes no further without it. -/
def Valid : Prop := config.maxOrderQuantity ≠ 0 ∧ 0 < config.maxOrdersPerSecond

instance : Decidable config.Valid := inferInstanceAs (Decidable (_ ∧ _))

def globalLimits : RiskLimits where
  maxOrderQuantity := config.maxOrderQuantity
  maxOrderNotional := config.maxOrderNotional
  maxOrdersPerSecond := config.maxOrdersPerSecond
  enabled := true

/-- Every configured value in its place. -/
def configuredLimits : RiskLimits where
  maxOrderQuantity := config.maxOrderQuantity
  maxOrderNotional := config.maxOrderNotional
  maxPositionNotional := config.maxPositionNotional
  maxPositionQuantity := config.maxPositionQuantity
  maxOrdersPerSecond := config.maxOrdersPerSecond
  maxOpenOrders := config.maxOpenOrders
  maxLoss := config.maxLoss
  enabled := true

end RiskConfig

inductive RiskCall
  | checkOrder (order : Order) (nowSec : ℤ)
  | checkRateLimit (nowSec : ℤ)
  | onFill (symbol : Symbol) (side : Side) (qty price : ℤ)
  | onOrderAccepted (order : Order)
  | onOrderCanceled (order : Order)
  | onOrderRejected (order : Order)
  | setSymbolLimits (symbol : Symbol) (limits : RiskLimits)
  | activateKillSwitch
  | deactivateKillSwitch

namespace RiskManager

def checkRateLimit (rm : RiskManager) (nowSec : ℤ) : RiskManager × Bool :=
  let (limiter, granted) := rm.rateLimiter.tryAcquire nowSec
  ({ rm with rateLimiter := limiter }, granted)

def perform (rm : RiskManager) : RiskCall → RiskManager
  | .checkOrder order nowSec => (rm.checkOrder order nowSec).1
  | .checkRateLimit nowSec => (rm.checkRateLimit nowSec).1
  | .onFill symbol side qty price => rm.onFill symbol side qty price
  | .onOrderAccepted order => rm.onOrderAccepted order
  | .onOrderCanceled order => rm.onOrderCanceled order
  | .onOrderRejected order => rm.onOrderRejected order
  | .setSymbolLimits symbol limits => rm.setSymbolLimits symbol limits
  | .activateKillSwitch => rm.activateKillSwitch
  | .deactivateKillSwitch => rm.deactivateKillSwitch

/-- As `main` sets it up, with the clock readings of the constructor and of `set_global_limits`. -/
def configured (config : RiskConfig) (constructed set : ℤ) : RiskManager :=
  (initial constructed).setGlobalLimits config.globalLimits set

def after (config : RiskConfig) (constructed set : ℤ) (calls : List RiskCall) : RiskManager :=
  calls.foldl perform (configured config constructed set)

theorem perform_globalLimits (rm : RiskManager) (call : RiskCall) :
    (rm.perform call).globalLimits = rm.globalLimits := by
  cases call with
  | checkOrder order nowSec => exact rm.checkOrder_globalLimits order nowSec
  | checkRateLimit | onFill | onOrderAccepted | onOrderCanceled | onOrderRejected | setSymbolLimits
  | activateKillSwitch | deactivateKillSwitch => rfl

theorem foldl_perform_globalLimits (rm : RiskManager) (calls : List RiskCall) :
    (calls.foldl perform rm).globalLimits = rm.globalLimits := by
  induction calls generalizing rm with
  | nil => rfl
  | cons call calls ih => rw [List.foldl_cons, ih, perform_globalLimits]

theorem after_globalLimits (config : RiskConfig) (constructed set : ℤ) (calls : List RiskCall) :
    (after config constructed set calls).globalLimits = config.globalLimits :=
  foldl_perform_globalLimits _ calls

end RiskManager

end Klett.Sor
