import Klett.Lib.Yaml
import Klett.Sor.Configuration

namespace Klett.Sor

open Klett.Lib FixedString

abbrev Text := List UInt8

structure VenueConfig where
  venueId : ℕ
  name : Text
  type : Text
  endpoint : Text
  feeRate : ℚ
  enabled : Bool
  maxOrdersPerSecond : ℤ

structure StrategyConfig where
  defaultStrategy : RoutingStrategy := .bestPrice
  vwapNumSlices : ℤ := 10
  vwapDurationSeconds : ℤ := 300
  vwapUrgency : ℚ := 1 / 2
  sweepMinSlice : ℤ := 10
  iocSlippageTicks : ℤ := 2

structure FixConfig where
  enabled : Bool := false
  listenPort : ℤ := 9876
  senderCompId : Text := ascii "SOR"
  targetCompId : Text := ascii "CLIENT"
  heartbeatIntervalSec : ℤ := 30

structure ApiConfig where
  enabled : Bool := true
  zmqOrderEndpoint : Text := ascii "tcp://*:5555"
  zmqMarketDataEndpoint : Text := ascii "tcp://*:5556"
  zmqExecutionEndpoint : Text := ascii "tcp://*:5557"
  maxMessageSize : ℤ := 65536

structure GatewayConfig where
  fix : FixConfig := {}
  api : ApiConfig := {}

structure MetricsConfig where
  enabled : Bool := true
  bindAddress : Text := ascii "0.0.0.0"
  port : ℤ := 9090
  path : Text := ascii "/metrics"

structure MarketDataConfig where
  provider : Text := ascii "simulated"
  alpacaApiKey : Text := []
  alpacaApiSecret : Text := []
  alpacaWsUrl : Text := ascii "wss://stream.data.alpaca.markets/v2/iex"
  alpacaUseSip : Bool := false
  symbols : List Text := []
  stalenessThresholdMs : ℤ := 5000
  reconnectDelaySec : ℤ := 5
  maxReconnectAttempts : ℤ := 10

structure SystemConfig where
  logLevel : Text := ascii "info"
  logFile : Text := []
  enableMetrics : Bool := true
  metricsPort : ℤ := 9090
  venues : List VenueConfig := []
  strategy : StrategyConfig := {}
  risk : RiskConfig := {}
  gateway : GatewayConfig := {}
  metrics : MetricsConfig := {}
  marketData : MarketDataConfig := {}
  dataDir : Text := []

namespace ConfigManager

open Yaml

section Flattening

abbrev Flat := Text → Option Text

variable (lib : Library)

def childPrefix (pre key : Text) : Text := if pre.isEmpty then key else pre ++ ascii "." ++ key

def itemPrefix (pre : Text) (i : ℕ) : Text := pre ++ ascii "[" ++ ascii (toString i) ++ ascii "]"

mutual

/-- What is in `out` when the flattening ends, and the exception that ended it. -/
def flattenYaml (pre : Text) : Yaml → Flat → Flat × Option Error
  | .null, out => (out, none)
  | .scalar text, out => (Function.update out pre (some text), none)
  | .sequence items, out => flattenItems pre 0 items out
  | .map entries, out => flattenEntries pre entries out

def flattenItems (pre : Text) (i : ℕ) : List Yaml → Flat → Flat × Option Error
  | [], out => (out, none)
  | item :: items, out =>
    match flattenYaml (itemPrefix pre i) item out with
    | (out, none) => flattenItems pre (i + 1) items out
    | (out, some e) => (out, some e)

def flattenEntries (pre : Text) : List (Yaml × Yaml) → Flat → Flat × Option Error
  | [], out => (out, none)
  | (key, value) :: entries, out =>
    match lib.string key with
    | none => (out, some .badConversion)
    | some key =>
      match flattenYaml (childPrefix pre key) value out with
      | (out, none) => flattenEntries pre entries out
      | (out, some e) => (out, some e)

end

end Flattening

section Parsing

variable {α : Type} (lib : Library) (P : Platform) (env : Text → Option Text)

/-- `as<T>(default)` on a node that may be undefined. -/
def orDefault (read : Yaml → Option α) (default : α) (node : Option Yaml) : α := (node.bind read).getD default

def present (read : Yaml → Option α) (default : α) (node : Option Yaml) : Option α :=
  node.map fun n => (read n).getD default

/-- A key that is there takes the place of `prior`, with `default` if its value does not fit. -/
def override (read : Yaml → Option α) (default prior : α) (node : Option Yaml) : α :=
  (present read default node).getD prior

def under (node : Option Yaml) (key : String) : Option Yaml := node.bind (get? (ascii key))

def parseRoutingStrategy (s : Text) : RoutingStrategy :=
  if s = ascii "best_price" ∨ s = ascii "BestPrice" then .bestPrice
  else if s = ascii "liquidity_sweep" ∨ s = ascii "LiquiditySweep" then .liquiditySweep
  else if s = ascii "smart_ioc" ∨ s = ascii "SmartIOC" then .smartIoc
  else if s = ascii "vwap" ∨ s = ascii "VWAP" then .vwap
  else .bestPrice

def readVenue (vnode : Yaml) : Except Error VenueConfig := do
  let id ← vnode.subscript (ascii "id")
  let field := under (some vnode)
  return { venueId := orDefault lib.uint16 (orDefault lib.uint16 0 (field "venue_id")) id
           name := orDefault lib.string [] (field "name")
           type := orDefault lib.string (orDefault lib.string (ascii "simulated") (field "type")) (field "adapter")
           endpoint := orDefault lib.string [] (field "endpoint")
           feeRate := orDefault lib.double (1 / 1000) (field "fee_rate")
           enabled := orDefault lib.bool true (field "enabled")
           maxOrdersPerSecond :=
             orDefault lib.int32 (orDefault lib.int32 100 (field "max_orders_per_second")) (field "max_order_rate") }

def readVenues (root : Yaml) : Except Error (List VenueConfig) :=
  match root.get? (ascii "venues") with
  | some (.sequence items) => items.mapM (readVenue lib)
  | _ => .ok []

def strategyNode (root : Yaml) : Option Yaml :=
  (root.section? (ascii "strategy")).or (root.section? (ascii "routing"))

/-- The second subscript throws where `strategies` is a scalar. -/
def vwapNode (snode : Yaml) : Except Error (Option Yaml) :=
  match snode.get? (ascii "strategies") with
  | none => .ok none
  | some strategies => strategies.subscript (ascii "vwap")

def readStrategy (root : Yaml) : Except Error StrategyConfig :=
  match strategyNode root with
  | none => .ok {}
  | some snode => do
    let vwap ← vwapNode snode
    let vwap := under (vwap.filter isMap)
    let field := under (some snode)
    let numSlices := override lib.int32 10 10 (vwap "num_slices")
    let duration := ((present lib.double 15 (vwap "interval_sec")).map fun d =>
      Platform.castInt 32 (P.mul d (P.ofInt numSlices))).getD 300
    let urgency := override lib.double (1 / 20) (1 / 2) (vwap "participation_rate")
    return { defaultStrategy := ((present lib.string (ascii "best_price") (field "default_strategy")).map
               parseRoutingStrategy).getD .bestPrice
             vwapNumSlices := override lib.int32 10 numSlices (field "vwap_num_slices")
             vwapDurationSeconds := override lib.int32 300 duration (field "vwap_duration_seconds")
             vwapUrgency := override lib.double (1 / 2) urgency (field "vwap_urgency")
             sweepMinSlice := override lib.int64 10 10 (field "sweep_min_slice")
             iocSlippageTicks := override lib.int32 2 2 (field "ioc_slippage_ticks") }

def readRisk (rnode : Yaml) : RiskConfig :=
  let field := under (some rnode)
  RiskSection.parse P
    { maxOrderQuantity := present lib.int64 10000 (field "max_order_quantity")
      maxOrderNotional := present lib.double 0 (field "max_order_notional")
      maxPositionPerSymbol := present lib.int64 0 (field "max_position_per_symbol")
      maxPositionNotional := present lib.double 0 (field "max_position_notional")
      maxPositionQuantity := present lib.int64 0 (field "max_position_quantity")
      rateLimiter :=
        present lib.int32 100 (under (rnode.section? (ascii "rate_limiter")) "max_orders_per_second")
      maxOrdersPerSecond := present lib.int32 100 (field "max_orders_per_second")
      maxOpenOrders := present lib.int32 1000 (field "max_open_orders")
      killSwitch := present lib.double 0 (under (rnode.section? (ascii "kill_switch")) "max_loss_threshold")
      maxLoss := present lib.double 0 (field "max_loss") }

def readFix (fix : Yaml) : FixConfig :=
  let field := under (some fix)
  { enabled := orDefault lib.bool false (field "enabled")
    listenPort := orDefault lib.int32 9876 (field "listen_port")
    senderCompId := orDefault lib.string (ascii "SOR") (field "sender_comp_id")
    targetCompId := orDefault lib.string (ascii "CLIENT") (field "target_comp_id")
    heartbeatIntervalSec := orDefault lib.int32 30 (field "heartbeat_interval_sec") }

def readApi (api : Yaml) : ApiConfig :=
  let field := under (some api)
  { enabled := orDefault lib.bool false (field "enabled")
    zmqOrderEndpoint := orDefault lib.string (ascii "tcp://*:5555") (field "zmq_endpoint")
    zmqMarketDataEndpoint := orDefault lib.string (ascii "tcp://*:5556") (field "zmq_market_data_endpoint")
    zmqExecutionEndpoint := orDefault lib.string (ascii "tcp://*:5557") (field "zmq_execution_endpoint")
    maxMessageSize := orDefault lib.int32 65536 (field "max_message_size") }

def readGateway (gnode : Yaml) : GatewayConfig where
  fix := ((gnode.section? (ascii "fix")).map (readFix lib)).getD {}
  api := ((gnode.section? (ascii "api")).map (readApi lib)).getD {}

def readPrometheus (prom : Yaml) : MetricsConfig :=
  let field := under (some prom)
  { enabled := orDefault lib.bool true (field "enabled")
    bindAddress := orDefault lib.string (ascii "0.0.0.0") (field "endpoint")
    port := orDefault lib.int32 9090 (field "port")
    path := orDefault lib.string (ascii "/metrics") (field "path") }

def readMetrics (mnode : Yaml) : MetricsConfig :=
  ((mnode.section? (ascii "prometheus")).map (readPrometheus lib)).getD {}

/-- A value of the form of a dollar sign and a name in braces is looked up in the environment. -/
def expandEnv (val : Text) : Text :=
  if val.length > 3 ∧ val.head? = some 36 ∧ val[1]? = some 123 ∧ val.getLast? = some 125 then
    (env ((val.drop 2).take (val.length - 3))).getD []
  else val

def readSymbol (snode : Yaml) : Except Error Text :=
  match lib.string snode with
  | some text => .ok text
  | none => .error .badConversion

def readSymbols : Option Yaml → Except Error (List Text)
  | some (.sequence items) => items.mapM (readSymbol lib)
  | _ => .ok []

def readMarketData (mdnode : Yaml) : Except Error MarketDataConfig := do
  let field := under (some mdnode)
  let default : MarketDataConfig := {}
  let alpaca := mdnode.section? (ascii "alpaca")
  let alpacaText (key : String) (prior : Text) : Text :=
    alpaca.elim prior fun node => orDefault lib.string prior (under (some node) key)
  let symbols ← readSymbols lib (field "symbols")
  return { provider := orDefault lib.string (ascii "simulated") (field "provider")
           alpacaApiKey := expandEnv env (alpacaText "api_key" [])
           alpacaApiSecret := expandEnv env (alpacaText "api_secret" [])
           alpacaWsUrl := alpacaText "ws_url" default.alpacaWsUrl
           alpacaUseSip := orDefault lib.bool false (under alpaca "use_sip")
           symbols := symbols
           stalenessThresholdMs := orDefault lib.int32 5000 (field "staleness_threshold_ms")
           reconnectDelaySec := orDefault lib.int32 5 (field "reconnect_delay_sec")
           maxReconnectAttempts := orDefault lib.int32 10 (field "max_reconnect_attempts") }

def readMarketDataSection (root : Yaml) : Except Error MarketDataConfig :=
  match root.section? (ascii "market_data") with
  | some mdnode => readMarketData lib env mdnode
  | none => .ok {}

/-- The structured parse. Where the first subscript of the root does not throw, the others do not. -/
def parseConfig (root : Yaml) : Except Error SystemConfig := do
  let sys ← root.subscript (ascii "system")
  let sys := under (sys.filter isMap)
  let field := under (some root)
  let venues ← readVenues lib root
  let strategy ← readStrategy lib P root
  let metrics := ((root.section? (ascii "metrics")).map (readMetrics lib)).getD {}
  let marketData ← readMarketDataSection lib env root
  return { logLevel := override lib.string (ascii "info")
             (override lib.string (ascii "info") (ascii "info") (sys "log_level")) (field "log_level")
           logFile := override lib.string [] (override lib.string [] [] (sys "log_file")) (field "log_file")
           enableMetrics := override lib.bool true metrics.enabled (field "enable_metrics")
           metricsPort := override lib.int32 9090 metrics.port (field "metrics_port")
           venues := venues
           strategy := strategy
           risk := ((root.section? (ascii "risk")).map (readRisk lib P)).getD {}
           gateway := ((root.section? (ascii "gateway")).map (readGateway lib)).getD {}
           metrics := metrics
           marketData := marketData
           dataDir := override lib.string [] [] (field "data_dir") }

end Parsing

end ConfigManager

/-- How a change listener ends when it is called. -/
inductive Ending
  | returns
  | throwsStd
  | throwsOther
  deriving DecidableEq

structure ConfigManager where
  config : SystemConfig := {}
  configPath : Text := []
  changeCallbacks : List Ending := []
  flatValues : ConfigManager.Flat := fun _ => none

namespace ConfigManager

open Yaml

section Model

inductive Outcome
  | returned (b : Bool)
  | threw
  deriving DecidableEq

variable (lib : Library) (P : Platform) (env : Text → Option Text) (m : ConfigManager)

/-- `file` is the tree of the file, or `none` where reading it throws. -/
def parseYaml (file : Option Yaml) : ConfigManager × Outcome :=
  match file with
  | none => (m, .returned false)
  | some root =>
    match flattenYaml lib [] root fun _ => none with
    | (flat, some _) => ({ m with flatValues := flat }, .threw)
    | (flat, none) =>
      match parseConfig lib P env root with
      | .error _ => ({ m with flatValues := flat }, .threw)
      | .ok cfg => ({ m with flatValues := flat, config := cfg }, .returned true)

def load (path : Text) (file : Option Yaml) : ConfigManager × Outcome :=
  parseYaml lib P env { m with configPath := path } file

def reload (file : Option Yaml) : ConfigManager × Outcome :=
  if m.configPath.isEmpty then (m, .returned false)
  else
    match parseYaml lib P env m file with
    | (next, .threw) => (next, .threw)
    | (next, .returned false) => ({ next with config := m.config }, .returned false)
    | (next, .returned true) =>
      (next, if m.changeCallbacks.all fun ending => ending ≠ .throwsOther then .returned true else .threw)

end Model

section Specification

variable (lib : Library) (P : Platform) (env : Text → Option Text)

variable {α : Type}

/-- The node behind a path of keys, from the root on. -/
def nodeAt : List String → Yaml → Option Yaml
  | [], node => some node
  | key :: path, node => (node.get? (ascii key)).bind (nodeAt path)

def itemsAt (path : List String) (root : Yaml) : List Yaml :=
  match nodeAt path root with
  | some (.sequence items) => items
  | _ => []

/-- The value at the first of these places that is in the file. Each place has a value for a node that does not fit. -/
def given (read : Yaml → Option α) (root : Yaml) : List (List String × α) → Option α
  | [] => none
  | (path, unfit) :: places => (present read unfit (nodeAt path root)).or (given read root places)

def firstFitting (read : Yaml → Option α) (node : Yaml) (keys : List String) : Option α :=
  keys.findSome? fun key => (nodeAt [key] node).bind read

def isSection (path : List String) (root : Yaml) : Bool := ((nodeAt path root).filter isMap).isSome

structure VenueShown (node : Yaml) (venue : VenueConfig) : Prop where
  venueId : venue.venueId = (firstFitting lib.uint16 node ["id", "venue_id"]).getD 0
  name : venue.name = (firstFitting lib.string node ["name"]).getD []
  type : venue.type = (firstFitting lib.string node ["adapter", "type"]).getD (ascii "simulated")
  endpoint : venue.endpoint = (firstFitting lib.string node ["endpoint"]).getD []
  feeRate : venue.feeRate = (firstFitting lib.double node ["fee_rate"]).getD (1 / 1000)
  enabled : venue.enabled = (firstFitting lib.bool node ["enabled"]).getD true
  maxOrdersPerSecond : venue.maxOrdersPerSecond =
    (firstFitting lib.int32 node ["max_order_rate", "max_orders_per_second"]).getD 100

/-- The section that configures the routing: `routing` where `strategy` is no map. -/
def routingKey (root : Yaml) : String := if isSection ["strategy"] root then "strategy" else "routing"

structure StrategyShown (root : Yaml) (strategy : StrategyConfig) : Prop where
  defaultStrategy : strategy.defaultStrategy =
    ((given lib.string root [([routingKey root, "default_strategy"], ascii "best_price")]).map
      parseRoutingStrategy).getD .bestPrice
  vwapNumSlices : strategy.vwapNumSlices = (given lib.int32 root [([routingKey root, "vwap_num_slices"], 10),
    ([routingKey root, "strategies", "vwap", "num_slices"], 10)]).getD 10
  vwapDurationSeconds : strategy.vwapDurationSeconds =
    ((given lib.int32 root [([routingKey root, "vwap_duration_seconds"], 300)]).or
      ((given lib.double root [([routingKey root, "strategies", "vwap", "interval_sec"], 15)]).map fun seconds =>
        Platform.castInt 32 (P.mul seconds (P.ofInt
          ((given lib.int32 root [([routingKey root, "strategies", "vwap", "num_slices"], 10)]).getD 10))))).getD 300
  vwapUrgency : strategy.vwapUrgency = (given lib.double root [([routingKey root, "vwap_urgency"], 1 / 2),
    ([routingKey root, "strategies", "vwap", "participation_rate"], 1 / 20)]).getD (1 / 2)
  sweepMinSlice : strategy.sweepMinSlice = (given lib.int64 root [([routingKey root, "sweep_min_slice"], 10)]).getD 10
  iocSlippageTicks : strategy.iocSlippageTicks =
    (given lib.int32 root [([routingKey root, "ioc_slippage_ticks"], 2)]).getD 2

structure RiskShown (root : Yaml) (risk : RiskConfig) : Prop where
  maxOrderQuantity : risk.maxOrderQuantity =
    (given lib.int64 root [(["risk", "max_order_quantity"], 10000)]).getD 10000
  maxOrderNotional : risk.maxOrderNotional =
    ((given lib.double root [(["risk", "max_order_notional"], 0)]).map (toPrice P)).getD 0
  maxPositionNotional : risk.maxPositionNotional =
    ((given lib.double root [(["risk", "max_position_notional"], 0)]).map (toPrice P)).getD 0
  maxPositionQuantity : risk.maxPositionQuantity = (given lib.int64 root [(["risk", "max_position_quantity"], 0),
    (["risk", "max_position_per_symbol"], 0)]).getD 0
  maxOrdersPerSecond : risk.maxOrdersPerSecond = (given lib.int32 root [(["risk", "max_orders_per_second"], 100),
    (["risk", "rate_limiter", "max_orders_per_second"], 100)]).getD 100
  maxOpenOrders : risk.maxOpenOrders = (given lib.int32 root [(["risk", "max_open_orders"], 1000)]).getD 1000
  maxLoss : risk.maxLoss = ((given lib.double root [(["risk", "max_loss"], 0),
    (["risk", "kill_switch", "max_loss_threshold"], 0)]).map (toPrice P)).getD 0

structure GatewayShown (root : Yaml) (gateway : GatewayConfig) : Prop where
  fixEnabled : gateway.fix.enabled = (given lib.bool root [(["gateway", "fix", "enabled"], false)]).getD false
  listenPort : gateway.fix.listenPort = (given lib.int32 root [(["gateway", "fix", "listen_port"], 9876)]).getD 9876
  senderCompId : gateway.fix.senderCompId =
    (given lib.string root [(["gateway", "fix", "sender_comp_id"], ascii "SOR")]).getD (ascii "SOR")
  targetCompId : gateway.fix.targetCompId =
    (given lib.string root [(["gateway", "fix", "target_comp_id"], ascii "CLIENT")]).getD (ascii "CLIENT")
  heartbeatIntervalSec : gateway.fix.heartbeatIntervalSec =
    (given lib.int32 root [(["gateway", "fix", "heartbeat_interval_sec"], 30)]).getD 30
  apiEnabled : gateway.api.enabled = (given lib.bool root [(["gateway", "api", "enabled"], false)]).getD
    (!isSection ["gateway", "api"] root)
  zmqOrderEndpoint : gateway.api.zmqOrderEndpoint =
    (given lib.string root [(["gateway", "api", "zmq_endpoint"], ascii "tcp://*:5555")]).getD (ascii "tcp://*:5555")
  zmqMarketDataEndpoint : gateway.api.zmqMarketDataEndpoint =
    (given lib.string root [(["gateway", "api", "zmq_market_data_endpoint"], ascii "tcp://*:5556")]).getD
      (ascii "tcp://*:5556")
  zmqExecutionEndpoint : gateway.api.zmqExecutionEndpoint =
    (given lib.string root [(["gateway", "api", "zmq_execution_endpoint"], ascii "tcp://*:5557")]).getD
      (ascii "tcp://*:5557")
  maxMessageSize : gateway.api.maxMessageSize =
    (given lib.int32 root [(["gateway", "api", "max_message_size"], 65536)]).getD 65536

structure MetricsShown (root : Yaml) (metrics : MetricsConfig) : Prop where
  enabled : metrics.enabled = (given lib.bool root [(["metrics", "prometheus", "enabled"], true)]).getD true
  bindAddress : metrics.bindAddress =
    (given lib.string root [(["metrics", "prometheus", "endpoint"], ascii "0.0.0.0")]).getD (ascii "0.0.0.0")
  port : metrics.port = (given lib.int32 root [(["metrics", "prometheus", "port"], 9090)]).getD 9090
  path : metrics.path =
    (given lib.string root [(["metrics", "prometheus", "path"], ascii "/metrics")]).getD (ascii "/metrics")

structure MarketDataShown (root : Yaml) (data : MarketDataConfig) : Prop where
  provider : data.provider =
    (given lib.string root [(["market_data", "provider"], ascii "simulated")]).getD (ascii "simulated")
  alpacaApiKey : data.alpacaApiKey =
    expandEnv env ((given lib.string root [(["market_data", "alpaca", "api_key"], [])]).getD [])
  alpacaApiSecret : data.alpacaApiSecret =
    expandEnv env ((given lib.string root [(["market_data", "alpaca", "api_secret"], [])]).getD [])
  alpacaWsUrl : data.alpacaWsUrl = (given lib.string root [(["market_data", "alpaca", "ws_url"],
    ascii "wss://stream.data.alpaca.markets/v2/iex")]).getD (ascii "wss://stream.data.alpaca.markets/v2/iex")
  alpacaUseSip : data.alpacaUseSip = (given lib.bool root [(["market_data", "alpaca", "use_sip"], false)]).getD false
  symbols : data.symbols.map some = (itemsAt ["market_data", "symbols"] root).map lib.string
  stalenessThresholdMs : data.stalenessThresholdMs =
    (given lib.int32 root [(["market_data", "staleness_threshold_ms"], 5000)]).getD 5000
  reconnectDelaySec : data.reconnectDelaySec =
    (given lib.int32 root [(["market_data", "reconnect_delay_sec"], 5)]).getD 5
  maxReconnectAttempts : data.maxReconnectAttempts =
    (given lib.int32 root [(["market_data", "max_reconnect_attempts"], 10)]).getD 10

/-- Each typed setting is what the file has at its paths, or its default. -/
structure Shown (root : Yaml) (cfg : SystemConfig) : Prop where
  logLevel : cfg.logLevel = (given lib.string root [(["log_level"], ascii "info"),
    (["system", "log_level"], ascii "info")]).getD (ascii "info")
  logFile : cfg.logFile = (given lib.string root [(["log_file"], []), (["system", "log_file"], [])]).getD []
  enableMetrics : cfg.enableMetrics = (given lib.bool root [(["enable_metrics"], true),
    (["metrics", "prometheus", "enabled"], true)]).getD true
  metricsPort : cfg.metricsPort = (given lib.int32 root [(["metrics_port"], 9090),
    (["metrics", "prometheus", "port"], 9090)]).getD 9090
  venues : List.Forall₂ (VenueShown lib) (itemsAt ["venues"] root) cfg.venues
  strategy : StrategyShown lib P root cfg.strategy
  risk : RiskShown lib P root cfg.risk
  gateway : GatewayShown lib root cfg.gateway
  metrics : MetricsShown lib root cfg.metrics
  marketData : MarketDataShown lib env root cfg.marketData
  dataDir : cfg.dataDir = (given lib.string root [(["data_dir"], [])]).getD []

mutual

/-- The texts of the file under their flat keys, in the order of the document. -/
def leaves (pre : Text) : Yaml → List (Text × Text)
  | .null => []
  | .scalar text => [(pre, text)]
  | .sequence items => itemLeaves pre 0 items
  | .map entries => entryLeaves pre entries

def itemLeaves (pre : Text) (i : ℕ) : List Yaml → List (Text × Text)
  | [] => []
  | item :: items => leaves (itemPrefix pre i) item ++ itemLeaves pre (i + 1) items

def entryLeaves (pre : Text) : List (Yaml × Yaml) → List (Text × Text)
  | [] => []
  | (key, value) :: entries => ((lib.string key).elim [] fun key => leaves (childPrefix pre key) value) ++
      entryLeaves pre entries

end

/-- Of the texts under one flat key the last one stands. -/
def lastUnder (key : Text) (texts : List (Text × Text)) : Option Text :=
  (texts.reverse.find? (·.1 = key)).map Prod.snd

/-- No exception, and both views are those of the new file, or both as before. -/
def Atomic (m : ConfigManager) (file : Option Yaml) (result : ConfigManager × Outcome) : Prop :=
  match result with
  | (_, .threw) => False
  | (next, .returned true) => ∃ root, file = some root ∧ Shown lib P env root next.config ∧
      ∀ key, next.flatValues key = lastUnder key (leaves lib [] root)
  | (next, .returned false) => next.config = m.config ∧ next.flatValues = m.flatValues

mutual

def KeysReadable : Yaml → Prop
  | .null => True
  | .scalar _ => True
  | .sequence items => ItemsReadable items
  | .map entries => EntriesReadable entries

def ItemsReadable : List Yaml → Prop
  | [] => True
  | item :: items => KeysReadable item ∧ ItemsReadable items

def EntriesReadable : List (Yaml × Yaml) → Prop
  | [] => True
  | (key, value) :: entries => (∃ text, lib.string key = some text) ∧ KeysReadable value ∧ EntriesReadable entries

end

structure Loadable (root : Yaml) : Prop where
  keys : KeysReadable lib root
  notScalar : root.isScalar = false
  venues : ∀ items, root.get? (ascii "venues") = some (.sequence items) → ∀ vnode ∈ items, vnode.isScalar = false
  strategies : ∀ snode strategies, strategyNode root = some snode → snode.get? (ascii "strategies") = some strategies →
    strategies.isScalar = false
  symbols : ∀ mdnode items, root.section? (ascii "market_data") = some mdnode →
    mdnode.get? (ascii "symbols") = some (.sequence items) → ∀ snode ∈ items, ∃ text, lib.string snode = some text

end Specification

section Throwing

variable {lib : Library} {P : Platform} {env : Text → Option Text}

mutual

theorem flattenYaml_ok (pre : Text) (node : Yaml) (out : Flat) :
    (flattenYaml lib pre node out).2 = none ↔ KeysReadable lib node := by
  cases node with
  | null => exact iff_of_true rfl trivial
  | scalar text => exact iff_of_true rfl trivial
  | sequence items =>
    unfold flattenYaml KeysReadable
    exact flattenItems_ok pre 0 items out
  | map entries =>
    unfold flattenYaml KeysReadable
    exact flattenEntries_ok pre entries out

theorem flattenItems_ok (pre : Text) (i : ℕ) (items : List Yaml) (out : Flat) :
    (flattenItems lib pre i items out).2 = none ↔ ItemsReadable lib items := by
  cases items with
  | nil => exact iff_of_true rfl trivial
  | cons item items =>
    unfold flattenItems ItemsReadable
    have hitem := flattenYaml_ok (itemPrefix pre i) item out
    cases hflat : flattenYaml lib (itemPrefix pre i) item out with
    | mk flat thrown =>
      rw [hflat] at hitem
      cases thrown with
      | none =>
        rw [and_iff_right (hitem.mp rfl)]
        exact flattenItems_ok pre (i + 1) items flat
      | some e => exact iff_of_false (by simp) fun h => absurd (hitem.mpr h.1) (by simp)

theorem flattenEntries_ok (pre : Text) (entries : List (Yaml × Yaml)) (out : Flat) :
    (flattenEntries lib pre entries out).2 = none ↔ EntriesReadable lib entries := by
  match entries with
  | [] => exact iff_of_true rfl trivial
  | (key, value) :: entries =>
    unfold flattenEntries EntriesReadable
    cases hkey : lib.string key with
    | none => exact iff_of_false (by simp) fun h => by simp at h
    | some text =>
      have hvalue := flattenYaml_ok (childPrefix pre text) value out
      simp only
      cases hflat : flattenYaml lib (childPrefix pre text) value out with
      | mk flat thrown =>
        rw [hflat] at hvalue
        cases thrown with
        | none =>
          rw [and_iff_right ⟨text, rfl⟩, and_iff_right (hvalue.mp rfl)]
          exact flattenEntries_ok pre entries flat
        | some e => exact iff_of_false (by simp) fun h => absurd (hvalue.mpr h.2.1) (by simp)

end

variable {α β γ ε : Type} {items : List α}

theorem bind_eq_ok {x : Except ε β} {f : β → Except ε γ} {c : γ} :
    x >>= f = .ok c ↔ ∃ b, x = .ok b ∧ f b = .ok c := by
  cases x with
  | error e =>
    apply iff_of_false
    · intro h
      cases h
    · rintro ⟨b, h, -⟩
      cases h
  | ok b =>
    constructor
    · intro h
      exact ⟨b, rfl, h⟩
    · rintro ⟨a, ha, h⟩
      obtain rfl := Except.ok.inj ha
      exact h

theorem bind_ok_iff {x : Except ε β} {f : β → Except ε γ} :
    (∃ c, x >>= f = .ok c) ↔ ∃ b, x = .ok b ∧ ∃ c, f b = .ok c := by
  constructor
  · rintro ⟨c, h⟩
    obtain ⟨b, hb, hc⟩ := bind_eq_ok.mp h
    exact ⟨b, hb, c, hc⟩
  · rintro ⟨b, hb, c, hc⟩
    exact ⟨c, bind_eq_ok.mpr ⟨b, hb, hc⟩⟩

theorem mapM_ok_iff {f : α → Except ε β} : (∃ ys, items.mapM f = .ok ys) ↔ ∀ x ∈ items, ∃ y, f x = .ok y := by
  induction items with
  | nil => exact iff_of_true ⟨[], rfl⟩ (List.forall_mem_nil _)
  | cons x items ih =>
    rw [List.mapM_cons, bind_ok_iff, List.forall_mem_cons, ← ih]
    constructor
    · rintro ⟨y, hy, h⟩
      obtain ⟨ys, hys, -⟩ := bind_ok_iff.mp h
      exact ⟨⟨y, hy⟩, ys, hys⟩
    · rintro ⟨⟨y, hy⟩, ys, hys⟩
      exact ⟨y, hy, bind_ok_iff.mpr ⟨ys, hys, _, rfl⟩⟩

theorem subscript_ok_iff {key : Text} {node : Yaml} : (∃ v, node.subscript key = .ok v) ↔ node.isScalar = false := by
  unfold subscript
  cases node.isScalar <;> simp

theorem bind_return_ok_iff {x : Except ε β} {f : β → γ} :
    (∃ c, (x >>= fun b => .ok (f b)) = .ok c) ↔ ∃ b, x = .ok b := by
  rw [bind_ok_iff]
  constructor
  · rintro ⟨b, hb, -⟩
    exact ⟨b, hb⟩
  · rintro ⟨b, hb⟩
    exact ⟨b, hb, _, rfl⟩

theorem readVenue_ok_iff {vnode : Yaml} : (∃ venue, readVenue lib vnode = .ok venue) ↔ vnode.isScalar = false := by
  have hid : (∃ v, vnode.subscript (ascii "id") = .ok v) ↔ vnode.isScalar = false := subscript_ok_iff
  rw [← hid]
  exact bind_return_ok_iff

theorem vwapNode_ok_iff {snode : Yaml} : (∃ vwap, vwapNode snode = .ok vwap) ↔
    ∀ strategies, snode.get? (ascii "strategies") = some strategies → strategies.isScalar = false := by
  unfold vwapNode
  cases snode.get? (ascii "strategies") with
  | none =>
    apply iff_of_true
    · exact ⟨_, rfl⟩
    · intro strategies h
      cases h
  | some strategies =>
    constructor
    · intro h inner hinner
      obtain rfl := Option.some.inj hinner
      exact subscript_ok_iff.mp h
    · intro h
      exact subscript_ok_iff.mpr (h strategies rfl)

theorem readStrategy_ok_iff {root : Yaml} : (∃ strategy, readStrategy lib P root = .ok strategy) ↔
    ∀ snode strategies, strategyNode root = some snode → snode.get? (ascii "strategies") = some strategies →
      strategies.isScalar = false := by
  unfold readStrategy
  cases hnode : strategyNode root with
  | none =>
    apply iff_of_true
    · exact ⟨_, rfl⟩
    · intro snode strategies h
      cases h
  | some snode =>
    have hvwap : (∃ vwap, vwapNode snode = .ok vwap) ↔ _ := vwapNode_ok_iff
    constructor
    · intro h other strategies hother
      obtain rfl := Option.some.inj hother
      exact hvwap.mp (bind_return_ok_iff.mp h) strategies
    · intro h
      exact bind_return_ok_iff.mpr (hvwap.mpr fun strategies => h snode strategies rfl)

theorem readSymbol_ok_iff {snode : Yaml} :
    (∃ text, readSymbol lib snode = .ok text) ↔ ∃ text, lib.string snode = some text := by
  unfold readSymbol
  cases lib.string snode <;> simp

theorem readSymbols_ok_iff {node : Option Yaml} : (∃ texts, readSymbols lib node = .ok texts) ↔
    ∀ items, node = some (.sequence items) → ∀ snode ∈ items, ∃ text, lib.string snode = some text := by
  unfold readSymbols
  split
  next items =>
    have hmap : (∃ texts, items.mapM (readSymbol lib) = .ok texts) ↔
        ∀ snode ∈ items, ∃ text, lib.string snode = some text := by
      rw [mapM_ok_iff]
      exact forall₂_congr fun snode _ => readSymbol_ok_iff
    rw [hmap]
    simp
  next hother =>
    apply iff_of_true
    · exact ⟨_, rfl⟩
    · intro items h
      exact absurd h (hother items)

theorem readMarketData_ok_iff {mdnode : Yaml} : (∃ config, readMarketData lib env mdnode = .ok config) ↔
    ∀ items, mdnode.get? (ascii "symbols") = some (.sequence items) → ∀ snode ∈ items, ∃ text,
      lib.string snode = some text := by
  have hsymbols : (∃ texts, readSymbols lib (mdnode.get? (ascii "symbols")) = .ok texts) ↔ _ := readSymbols_ok_iff
  rw [← hsymbols]
  exact bind_return_ok_iff

theorem readVenues_ok_iff {root : Yaml} : (∃ venues, readVenues lib root = .ok venues) ↔
    ∀ items, root.get? (ascii "venues") = some (.sequence items) → ∀ vnode ∈ items, vnode.isScalar = false := by
  unfold readVenues
  cases hvenues : root.get? (ascii "venues") with
  | none =>
    apply iff_of_true
    · exact ⟨_, rfl⟩
    · intro items h
      cases h
  | some node =>
    cases node with
    | sequence items =>
      have hmap : (∃ venues, items.mapM (readVenue lib) = .ok venues) ↔ ∀ vnode ∈ items, vnode.isScalar = false := by
        rw [mapM_ok_iff]
        exact forall₂_congr fun vnode _ => readVenue_ok_iff
      constructor
      · intro h other hother
        obtain rfl : items = other := by simpa using hother
        exact hmap.mp h
      · intro h
        exact hmap.mpr (h items rfl)
    | _ =>
      apply iff_of_true
      · exact ⟨_, rfl⟩
      · intro items h
        cases h

theorem readMarketDataSection_ok_iff {root : Yaml} : (∃ config, readMarketDataSection lib env root = .ok config) ↔
    ∀ mdnode items, root.section? (ascii "market_data") = some mdnode →
      mdnode.get? (ascii "symbols") = some (.sequence items) →
        ∀ snode ∈ items, ∃ text, lib.string snode = some text := by
  unfold readMarketDataSection
  cases hnode : root.section? (ascii "market_data") with
  | none =>
    apply iff_of_true
    · exact ⟨_, rfl⟩
    · intro mdnode items h
      cases h
  | some mdnode =>
    have hread : (∃ config, readMarketData lib env mdnode = .ok config) ↔ _ := readMarketData_ok_iff
    constructor
    · intro h other items hother
      obtain rfl := Option.some.inj hother
      exact hread.mp h items
    · intro h
      exact hread.mpr fun items => h mdnode items rfl

theorem loadable_iff {root : Yaml} : Loadable lib root ↔
    KeysReadable lib root ∧ ∃ config, parseConfig lib P env root = .ok config := by
  have hroot : (∃ sys, root.subscript (ascii "system") = .ok sys) ↔ root.isScalar = false := subscript_ok_iff
  unfold parseConfig
  simp only [bind_ok_iff]
  constructor
  · intro h
    obtain ⟨sys, hsys⟩ := hroot.mpr h.notScalar
    obtain ⟨venues, hvenues⟩ := readVenues_ok_iff.mpr h.venues
    obtain ⟨strategy, hstrategy⟩ : ∃ strategy, readStrategy lib P root = .ok strategy :=
      readStrategy_ok_iff.mpr h.strategies
    obtain ⟨marketData, hmarketData⟩ : ∃ config, readMarketDataSection lib env root = .ok config :=
      readMarketDataSection_ok_iff.mpr h.symbols
    exact ⟨h.keys, sys, hsys, venues, hvenues, strategy, hstrategy, marketData, hmarketData, _, rfl⟩
  · rintro ⟨hkeys, sys, hsys, venues, hvenues, strategy, hstrategy, marketData, hmarketData, -⟩
    exact ⟨hkeys, hroot.mp ⟨sys, hsys⟩, readVenues_ok_iff.mp ⟨venues, hvenues⟩,
      readStrategy_ok_iff.mp ⟨strategy, hstrategy⟩, readMarketDataSection_ok_iff.mp ⟨marketData, hmarketData⟩⟩

end Throwing

section Showing

variable {lib : Library} {P : Platform} {env : Text → Option Text} {α β ε : Type} {root : Yaml}

theorem nodeAt_singleton (key : String) (node : Yaml) : nodeAt [key] node = node.get? (ascii key) := by
  unfold nodeAt
  cases node.get? (ascii key) <;> rfl

@[simp] theorem given_nil (read : Yaml → Option α) (root : Yaml) : given read root [] = none :=
  rfl

@[simp] theorem given_cons (read : Yaml → Option α) (root : Yaml) (path : List String) (unfit : α)
    (places : List (List String × α)) : given read root ((path, unfit) :: places) =
      (present read unfit (nodeAt path root)).or (given read root places) :=
  rfl

@[simp] theorem present_none (read : Yaml → Option α) (default : α) : present read default none = none :=
  rfl

theorem orDefault_present (read : Yaml → Option α) (default : α) (node : Option Yaml) :
    orDefault read default node = (present read default node).getD default := by
  cases node <;> rfl

theorem get?_of_not_map {key : Text} {node : Yaml} (h : node.isMap = false) : node.get? key = none := by
  cases node with
  | map entries => cases h
  | _ => rfl

/-- Behind a section that is not there, or is no map, there is no key. -/
theorem filter_isMap_bind (node : Option Yaml) (key : Text) :
    (node.filter isMap).bind (get? key) = node.bind (get? key) := by
  cases node with
  | none => rfl
  | some node =>
    cases h : node.isMap with
    | true => rw [Option.filter_some_pos h]
    | false =>
      rw [Option.filter_some_neg (by simp [h]), Option.bind_some, get?_of_not_map h]
      rfl

theorem under_some (node : Yaml) (key : String) : under (some node) key = nodeAt [key] node :=
  (nodeAt_singleton key node).symm

theorem under_section (node : Yaml) (key inner : String) :
    under (node.section? (ascii key)) inner = nodeAt [key, inner] node := by
  have hlast : nodeAt [inner] = get? (ascii inner) := funext (nodeAt_singleton inner)
  unfold under section? nodeAt
  rw [filter_isMap_bind, hlast]

/-- Behind the key of a section stands what is in the section. -/
theorem nodeAt_section {key : String} {path : List String} {node : Option Yaml} (h : root.section? (ascii key) = node)
    (inner : String) : nodeAt (key :: inner :: path) root = node.bind (nodeAt (inner :: path)) := by
  subst h
  unfold section? nodeAt
  cases root.get? (ascii key) with
  | none => rfl
  | some found =>
    cases hmap : found.isMap with
    | true =>
      rw [Option.filter_some_pos hmap]
      rfl
    | false =>
      rw [Option.filter_some_neg (by simp [hmap]), Option.bind_some, nodeAt, get?_of_not_map hmap]
      rfl

theorem isSection_singleton (key : String) : isSection [key] root = (root.section? (ascii key)).isSome := by
  rw [isSection, nodeAt_singleton]
  rfl

theorem readRisk_shown : RiskShown lib P root (((root.section? (ascii "risk")).map (readRisk lib P)).getD {}) := by
  cases h : root.section? (ascii "risk") with
  | none =>
    constructor
    all_goals simp only [given_cons, given_nil, nodeAt_section h, Option.bind_none, present_none]
    all_goals rfl
  | some node =>
    constructor
    all_goals simp only [given_cons, given_nil, nodeAt_section h, Option.bind_some, Option.map_some, Option.getD_some,
      Option.or_none, readRisk, RiskSection.parse, under_some, under_section]

theorem isSection_section {key inner : String} {node : Option Yaml} (h : root.section? (ascii key) = node) :
    isSection [key, inner] root = (node.bind (section? (ascii inner))).isSome := by
  unfold isSection
  rw [nodeAt_section h]
  cases node with
  | none => rfl
  | some node => rw [Option.bind_some, nodeAt_singleton, Option.bind_some, section?]

theorem readGateway_shown :
    GatewayShown lib root (((root.section? (ascii "gateway")).map (readGateway lib)).getD {}) := by
  cases h : root.section? (ascii "gateway") with
  | none =>
    constructor
    all_goals simp only [given_cons, given_nil, nodeAt_section h, isSection_section h, Option.bind_none, present_none]
    all_goals rfl
  | some node =>
    cases hfix : node.section? (ascii "fix")
    all_goals cases hapi : node.section? (ascii "api")
    all_goals constructor
    all_goals simp only [given_cons, given_nil, nodeAt_section h, nodeAt_section hfix, nodeAt_section hapi,
      isSection_section h, hfix, hapi, Option.bind_none, Option.bind_some, Option.map_none, Option.map_some,
      Option.getD_none, Option.getD_some, Option.or_none, readGateway, readFix, readApi, orDefault_present, under_some,
      present_none]
    all_goals rfl

theorem readMetrics_shown :
    MetricsShown lib root (((root.section? (ascii "metrics")).map (readMetrics lib)).getD {}) := by
  cases h : root.section? (ascii "metrics") with
  | none =>
    constructor
    all_goals simp only [given_cons, given_nil, nodeAt_section h, Option.bind_none, present_none]
    all_goals rfl
  | some node =>
    cases hprom : node.section? (ascii "prometheus")
    all_goals constructor
    all_goals simp only [given_cons, given_nil, nodeAt_section h, nodeAt_section hprom, hprom, Option.bind_none,
      Option.bind_some, Option.map_none, Option.map_some, Option.getD_none, Option.getD_some, Option.or_none, readMetrics,
      readPrometheus, orDefault_present, under_some, present_none]

theorem firstFitting_cons (read : Yaml → Option α) (node : Yaml) (key : String) (keys : List String) :
    firstFitting read node (key :: keys) = ((nodeAt [key] node).bind read).or (firstFitting read node keys) := by
  unfold firstFitting
  rw [List.findSome?_cons]
  cases (nodeAt [key] node).bind read <;> rfl

theorem subscript_ok {key : Text} {node : Yaml} {v : Option Yaml} (h : node.subscript key = .ok v) : v = node.get? key := by
  unfold subscript at h
  split_ifs at h
  exact (Except.ok.inj h).symm

theorem readVenue_shown {vnode : Yaml} {venue : VenueConfig} (h : readVenue lib vnode = .ok venue) :
    VenueShown lib vnode venue := by
  obtain ⟨id, hid, h⟩ := bind_eq_ok.mp h
  obtain rfl := subscript_ok hid
  obtain rfl := Except.ok.inj h
  constructor
  all_goals simp only [firstFitting_cons, nodeAt_singleton, under, Option.bind_some, orDefault, Option.getD_or]
  all_goals rfl

theorem mapM_shown {f : α → Except ε β} {items : List α} {ys : List β} (h : items.mapM f = .ok ys) :
    List.Forall₂ (fun x y => f x = .ok y) items ys := by
  induction items generalizing ys with
  | nil =>
    obtain rfl := Except.ok.inj h
    exact .nil
  | cons x items ih =>
    rw [List.mapM_cons] at h
    obtain ⟨y, hy, h⟩ := bind_eq_ok.mp h
    obtain ⟨rest, hrest, h⟩ := bind_eq_ok.mp h
    obtain rfl := Except.ok.inj h
    exact .cons hy (ih hrest)

theorem readVenues_shown {venues : List VenueConfig} (h : readVenues lib root = .ok venues) :
    List.Forall₂ (VenueShown lib) (itemsAt ["venues"] root) venues := by
  unfold readVenues at h
  unfold itemsAt
  rw [nodeAt_singleton]
  split at h
  next items => exact (mapM_shown h).imp fun _ _ => readVenue_shown
  next =>
    obtain rfl := Except.ok.inj h
    exact .nil

theorem symbols_shown {items : List Yaml} {symbols : List Text}
    (h : List.Forall₂ (fun snode text => readSymbol lib snode = .ok text) items symbols) :
    symbols.map some = items.map lib.string := by
  induction h with
  | nil => rfl
  | cons hsymbol hrest ih =>
    unfold readSymbol at hsymbol
    split at hsymbol
    next found hfound =>
      obtain rfl := Except.ok.inj hsymbol
      rw [List.map_cons, List.map_cons, ih, hfound]
    · cases hsymbol

theorem readSymbols_shown {symbols : List Text} {path : List String} (h : readSymbols lib (nodeAt path root) = .ok symbols) :
    symbols.map some = (itemsAt path root).map lib.string := by
  unfold readSymbols at h
  unfold itemsAt
  split at h
  · exact symbols_shown (mapM_shown h)
  · obtain rfl := Except.ok.inj h
    rfl

@[simp] theorem expandEnv_nil : expandEnv env [] = [] :=
  rfl

theorem readMarketData_shown {data : MarketDataConfig} (h : readMarketDataSection lib env root = .ok data) :
    MarketDataShown lib env root data := by
  unfold readMarketDataSection at h
  cases hnode : root.section? (ascii "market_data") with
  | none =>
    rw [hnode] at h
    obtain rfl := Except.ok.inj h
    constructor
    case symbols => simp [itemsAt, nodeAt_section hnode]
    all_goals simp only [given_cons, given_nil, nodeAt_section hnode, Option.bind_none, present_none]
    all_goals rfl
  | some node =>
    simp only [hnode] at h
    obtain ⟨symbols, hsymbols, h⟩ := bind_eq_ok.mp h
    obtain rfl := Except.ok.inj h
    rw [under_some] at hsymbols
    have hitems : itemsAt ["market_data", "symbols"] root = itemsAt ["symbols"] node := by
      unfold itemsAt
      rw [nodeAt_section hnode, Option.bind_some]
    cases halpaca : node.section? (ascii "alpaca")
    all_goals constructor
    all_goals simp only [given_cons, given_nil, nodeAt_section hnode, nodeAt_section halpaca, Option.bind_none,
      Option.bind_some, Option.elim_none, Option.elim_some, Option.getD_none, Option.or_none, orDefault_present,
      under_some, present_none, hitems, readSymbols_shown hsymbols]
    all_goals rfl

theorem strategyNode_section : strategyNode root = root.section? (ascii (routingKey root)) := by
  unfold strategyNode routingKey
  rw [isSection_singleton]
  cases h : root.section? (ascii "strategy") with
  | none => rfl
  | some node => exact h.symm

theorem vwapNode_shown {snode : Yaml} {vwap : Option Yaml} (h : vwapNode snode = .ok vwap) (key : String) :
    under (vwap.filter isMap) key = nodeAt ["strategies", "vwap", key] snode := by
  unfold vwapNode at h
  rw [nodeAt]
  split at h
  next hnone =>
    obtain rfl := Except.ok.inj h
    rw [hnone]
    rfl
  next strategies hsome =>
    obtain rfl := subscript_ok h
    rw [hsome]
    exact under_section strategies "vwap" key

theorem readStrategy_shown {strategy : StrategyConfig} (h : readStrategy lib P root = .ok strategy) :
    StrategyShown lib P root strategy := by
  unfold readStrategy at h
  rw [strategyNode_section] at h
  cases hnode : root.section? (ascii (routingKey root)) with
  | none =>
    rw [hnode] at h
    obtain rfl := Except.ok.inj h
    constructor
    all_goals simp only [given_cons, given_nil, nodeAt_section hnode, Option.bind_none, present_none]
    all_goals rfl
  | some snode =>
    simp only [hnode] at h
    obtain ⟨vwap, hvwap, h⟩ := bind_eq_ok.mp h
    obtain rfl := Except.ok.inj h
    constructor
    all_goals simp only [given_cons, given_nil, nodeAt_section hnode, vwapNode_shown hvwap, Option.bind_some,
      Option.or_none, override, Option.getD_or, under_some]

theorem parseConfig_shown {cfg : SystemConfig} (h : parseConfig lib P env root = .ok cfg) : Shown lib P env root cfg := by
  obtain ⟨sys, hsys, h⟩ := bind_eq_ok.mp h
  obtain ⟨venues, hvenues, h⟩ := bind_eq_ok.mp h
  obtain ⟨strategy, hstrategy, h⟩ := bind_eq_ok.mp h
  obtain ⟨marketData, hmarketData, h⟩ := bind_eq_ok.mp h
  obtain rfl := Except.ok.inj h
  obtain rfl := subscript_ok hsys
  have hsystem (key : String) : under ((root.get? (ascii "system")).filter isMap) key = nodeAt ["system", key] root :=
    under_section root "system" key
  have hmetrics : MetricsShown lib root _ := readMetrics_shown
  constructor
  case venues => exact readVenues_shown hvenues
  case strategy => exact readStrategy_shown hstrategy
  case risk => exact readRisk_shown
  case gateway => exact readGateway_shown
  case metrics => exact hmetrics
  case marketData => exact readMarketData_shown hmarketData
  case enableMetrics | metricsPort =>
    simp only [hmetrics.enabled, hmetrics.port, given_cons, given_nil, override, Option.getD_or, Option.or_none, under_some]
  all_goals simp only [given_cons, given_nil, override, Option.getD_or, Option.or_none, under_some, hsystem]

theorem lastUnder_append (key : Text) (xs ys : List (Text × Text)) :
    lastUnder key (xs ++ ys) = (lastUnder key ys).or (lastUnder key xs) := by
  unfold lastUnder
  rw [List.reverse_append, List.find?_append, Option.map_or]

mutual

/-- The flat view is the texts of the file, over what was there before. -/
theorem flattenYaml_leaves {pre : Text} {node : Yaml} {out flat : Flat} (h : flattenYaml lib pre node out = (flat, none))
    (key : Text) : flat key = (lastUnder key (leaves lib pre node)).or (out key) := by
  cases node with
  | null =>
    obtain rfl := (Prod.mk.inj h).1
    rfl
  | scalar text =>
    obtain rfl := (Prod.mk.inj h).1
    by_cases hkey : key = pre
    · simp [leaves, lastUnder, hkey]
    · simp [leaves, lastUnder, hkey, Ne.symm hkey]
  | sequence items =>
    unfold flattenYaml at h
    unfold leaves
    exact flattenItems_leaves h key
  | map entries =>
    unfold flattenYaml at h
    unfold leaves
    exact flattenEntries_leaves h key

theorem flattenItems_leaves {pre : Text} {i : ℕ} {items : List Yaml} {out flat : Flat}
    (h : flattenItems lib pre i items out = (flat, none)) (key : Text) :
    flat key = (lastUnder key (itemLeaves lib pre i items)).or (out key) := by
  cases items with
  | nil =>
    obtain rfl := (Prod.mk.inj h).1
    rfl
  | cons item items =>
    unfold flattenItems at h
    unfold itemLeaves
    split at h
    next first hfirst =>
      rw [flattenItems_leaves h key, flattenYaml_leaves hfirst key, lastUnder_append, Option.or_assoc]
    · cases h

theorem flattenEntries_leaves {pre : Text} {entries : List (Yaml × Yaml)} {out flat : Flat}
    (h : flattenEntries lib pre entries out = (flat, none)) (key : Text) :
    flat key = (lastUnder key (entryLeaves lib pre entries)).or (out key) := by
  match entries with
  | [] =>
    obtain rfl := (Prod.mk.inj h).1
    rfl
  | (name, value) :: entries =>
    unfold flattenEntries at h
    unfold entryLeaves
    split at h
    · cases h
    next text htext =>
      split at h
      next first hfirst =>
        rw [flattenEntries_leaves h key, flattenYaml_leaves hfirst key, lastUnder_append, Option.or_assoc, htext]
        rfl
      · cases h

end

theorem flattenYaml_root {flat : Flat} (h : flattenYaml lib [] root (fun _ => none) = (flat, none)) (key : Text) :
    flat key = lastUnder key (leaves lib [] root) := by
  rw [flattenYaml_leaves h key, Option.or_none]

end Showing

section Main

variable {lib : Library} {P : Platform} {env : Text → Option Text} {m : ConfigManager} {root : Yaml}

theorem parseYaml_loadable (m : ConfigManager) (h : Loadable lib root) :
    ∃ cfg flat, Shown lib P env root cfg ∧ (∀ key, flat key = lastUnder key (leaves lib [] root)) ∧
      parseYaml lib P env m (some root) = ({ m with flatValues := flat, config := cfg }, .returned true) := by
  obtain ⟨hkeys, cfg, hcfg⟩ := loadable_iff.mp h
  have hflat := (flattenYaml_ok [] root fun _ => none).mpr hkeys
  cases hread : flattenYaml lib [] root fun _ => none with
  | mk flat thrown =>
    rw [hread] at hflat
    obtain rfl : thrown = none := hflat
    refine ⟨cfg, flat, parseConfig_shown hcfg, flattenYaml_root hread, ?_⟩
    unfold parseYaml
    simp only [hread, hcfg]

theorem parseYaml_not_loadable (m : ConfigManager) (h : ¬Loadable lib root) :
    ∃ next, parseYaml lib P env m (some root) = (next, .threw) := by
  unfold parseYaml
  cases hread : flattenYaml lib [] root fun _ => none with
  | mk flat thrown =>
    cases thrown with
    | some e =>
      simp only [hread]
      exact ⟨_, rfl⟩
    | none =>
      have hkeys : KeysReadable lib root := by
        rw [← flattenYaml_ok [] root fun _ => none, hread]
      cases hcfg : parseConfig lib P env root with
      | error e =>
        simp only [hread, hcfg]
        exact ⟨_, rfl⟩
      | ok cfg => exact absurd (loadable_iff.mpr ⟨hkeys, cfg, hcfg⟩) h

theorem parseYaml_atomic_iff (m n : ConfigManager) (hconfig : n.config = m.config) (hflat : n.flatValues = m.flatValues)
    (file : Option Yaml) : Atomic lib P env m file (parseYaml lib P env n file) ↔
      ∀ root, file = some root → Loadable lib root := by
  cases file with
  | none => exact iff_of_true ⟨hconfig, hflat⟩ fun root h => by cases h
  | some root =>
    by_cases h : Loadable lib root
    · obtain ⟨cfg, flat, hcfg, hread, hparse⟩ := parseYaml_loadable n h
      rw [hparse]
      apply iff_of_true
      · exact ⟨root, rfl, hcfg, hread⟩
      · intro other hother
        obtain rfl := Option.some.inj hother
        exact h
    · obtain ⟨next, hparse⟩ := parseYaml_not_loadable n h
      rw [hparse]
      exact iff_of_false id fun hall => h (hall root rfl)

theorem reload_atomic_iff (m : ConfigManager) (file : Option Yaml) (hpath : m.configPath ≠ []) :
    Atomic lib P env m file (reload lib P env m file) ↔
      ∀ root, file = some root → Loadable lib root ∧ ∀ ending ∈ m.changeCallbacks, ending ≠ .throwsOther := by
  unfold reload
  rw [if_neg (mt List.isEmpty_iff.mp hpath)]
  cases file with
  | none => exact iff_of_true ⟨rfl, rfl⟩ fun root h => by cases h
  | some root =>
    by_cases h : Loadable lib root
    · obtain ⟨cfg, flat, hcfg, hread, hparse⟩ := parseYaml_loadable m h
      have hall : (m.changeCallbacks.all fun ending => ending ≠ .throwsOther) = true ↔
          ∀ ending ∈ m.changeCallbacks, ending ≠ .throwsOther := by simp
      rw [hparse]
      by_cases hendings : ∀ ending ∈ m.changeCallbacks, ending ≠ .throwsOther
      · simp only [hall.mpr hendings, if_true]
        apply iff_of_true
        · exact ⟨root, rfl, hcfg, hread⟩
        · intro other hother
          obtain rfl := Option.some.inj hother
          exact ⟨h, hendings⟩
      · simp only [if_neg (mt hall.mp hendings)]
        exact iff_of_false id fun hboth => hendings (hboth root rfl).2
    · obtain ⟨next, hparse⟩ := parseYaml_not_loadable m h
      rw [hparse]
      exact iff_of_false id fun hboth => h (hboth root rfl).1

/-- The flat view is refilled before the structured parse, and nothing catches what the parse throws. -/
theorem load_reload_atomic_iff (lib : Library) (P : Platform) (env : Text → Option Text) (m : ConfigManager)
    (path : Text) (file : Option Yaml) :
    (Atomic lib P env m file (load lib P env m path file) ↔ ∀ root, file = some root → Loadable lib root) ∧
      (Atomic lib P env m file (reload lib P env m file) ↔ m.configPath = [] ∨
        ∀ root, file = some root → Loadable lib root ∧ ∀ ending ∈ m.changeCallbacks, ending ≠ .throwsOther) := by
  constructor
  · exact parseYaml_atomic_iff m { m with configPath := path } rfl rfl file
  · by_cases hpath : m.configPath = []
    · unfold reload
      rw [if_pos (List.isEmpty_iff.mpr hpath)]
      exact iff_of_true ⟨rfl, rfl⟩ (.inl hpath)
    · rw [reload_atomic_iff m file hpath, or_iff_right hpath]

def wordsLibrary : Library where
  string
    | .null => some (ascii "null")
    | .scalar text => some text
    | _ => none
  int32 _ := none
  int64 _ := none
  uint16 _ := none
  double _ := none
  bool _ := none
  string_scalar _ := rfl
  string_sequence _ := rfl
  string_map _ := rfl

/-- A file of one word throws, and its word is all that is left in the flat view. -/
theorem load_one_word :
    let result := load wordsLibrary .exact (fun _ => none) {} (ascii "sor.yaml") (some (.scalar (ascii "hello")))
    result.2 = .threw ∧ result.1.flatValues [] = some (ascii "hello") ∧
      ¬Atomic wordsLibrary .exact (fun _ => none) {} (some (.scalar (ascii "hello"))) result :=
  ⟨rfl, rfl, id⟩

end Main

end ConfigManager

end Klett.Sor
