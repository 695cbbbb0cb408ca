import Klett.Lib.Double
import Klett.Lib.Delimited
import Klett.Luft.FlightEngine
import Klett.Sor.Types
import Mathlib.Data.List.DropRight

namespace Klett.Luft

open Klett.Lib Klett.Sor.FixedString

abbrev Text := List UInt8

/-- The whole configuration. The engine reads the part that it extends. -/
structure FileConfig (K : Type*) extends Config K where
  telemetryHost : Text
  commandHost : Text
  networkingEnabled : Bool
  logLevel : Text
  logFile : Text
  logConsole : Bool
  uiEnabled : Bool
  aircraftType : Text

section Load

def trim (s : Text) : Text := (s.dropWhile (· ∈ ascii " \t\r\n")).rdropWhile (· ∈ ascii " \t\r\n")

def toLower (s : Text) : Text := s.map Binary64.lower

def parseBool (val : Text) : Bool := toLower (trim val) ∈ [ascii "true", ascii "1", ascii "yes"]

def toUint16 (z : ℤ) : ℕ := (z % 65536).toNat

theorem toUint16_eq_iff {z : ℤ} : (toUint16 z : ℤ) = z ↔ 0 ≤ z ∧ z < 65536 := by
  unfold toUint16
  omega

def unquote (val : Text) : Text :=
  if 2 ≤ val.length ∧ val.head? = some 34 ∧ val.getLast? = some 34 then val.tail.dropLast else val

/-- The key and the value of a line, unless it is empty, a comment or without an equals sign. -/
def entry (line : Text) : Option (Text × Text) :=
  let line := trim line
  if line.head? = none ∨ line.head? = some 35 then none
  else (Delimited.cut 61 line).map fun (key, val) => (toLower (trim key), unquote (trim val))

variable (P : Platform)

def defaultConfig : FileConfig (Binary64 P) where
  timeStep := 0.01
  maxSimTime := 0.0
  telemetryHost := ascii "0.0.0.0"
  telemetryPort := 5000
  commandHost := ascii "0.0.0.0"
  commandPort := 5001
  networkingEnabled := true
  telemetryRateHz := 20.0
  logLevel := ascii "info"
  logFile := []
  logConsole := true
  uiEnabled := true
  windowWidth := 1280
  windowHeight := 720
  aircraftType := ascii "cessna172"
  initialAltitudeM := 1000.0
  initialAirspeedMs := 50.0
  initialHeadingDeg := 0.0
  initialFuelKg := 100.0
  windNorthMs := 0.0
  windEastMs := 0.0
  windDownMs := 0.0
  gustIntensity := 0.0
  elevatorSensitivity := 1.0
  aileronSensitivity := 1.0
  rudderSensitivity := 1.0

abbrev Setter := Text → Option (FileConfig (Binary64 P) → FileConfig (Binary64 P))

/-- The value is assigned when its parser does not throw. -/
def parsed {α : Type} (parse : Text → Option α) (set : α → FileConfig (Binary64 P) → FileConfig (Binary64 P)) :
    Setter P :=
  fun val => (parse val).map set

open Binary64 in
def settings : List (Text × Setter P) :=
  [ (ascii "time_step", parsed P (stod P) fun x cfg => { cfg with timeStep := x }),
    (ascii "max_sim_time", parsed P (stod P) fun x cfg => { cfg with maxSimTime := x }),
    (ascii "telemetry_host", parsed P some fun val cfg => { cfg with telemetryHost := val }),
    (ascii "telemetry_port", parsed P Decimal.stoi fun n cfg => { cfg with telemetryPort := toUint16 n }),
    (ascii "command_host", parsed P some fun val cfg => { cfg with commandHost := val }),
    (ascii "command_port", parsed P Decimal.stoi fun n cfg => { cfg with commandPort := toUint16 n }),
    (ascii "networking_enabled", parsed P some fun val cfg => { cfg with networkingEnabled := parseBool val }),
    (ascii "telemetry_rate_hz", parsed P (stod P) fun x cfg => { cfg with telemetryRateHz := x }),
    (ascii "log_level", parsed P some fun val cfg => { cfg with logLevel := toLower val }),
    (ascii "log_file", parsed P some fun val cfg => { cfg with logFile := val }),
    (ascii "log_console", parsed P some fun val cfg => { cfg with logConsole := parseBool val }),
    (ascii "ui_enabled", parsed P some fun val cfg => { cfg with uiEnabled := parseBool val }),
    (ascii "window_width", parsed P Decimal.stoi fun n cfg => { cfg with windowWidth := n }),
    (ascii "window_height", parsed P Decimal.stoi fun n cfg => { cfg with windowHeight := n }),
    (ascii "aircraft_type", parsed P some fun val cfg => { cfg with aircraftType := val }),
    (ascii "initial_altitude_m", parsed P (stod P) fun x cfg => { cfg with initialAltitudeM := x }),
    (ascii "initial_airspeed_ms", parsed P (stod P) fun x cfg => { cfg with initialAirspeedMs := x }),
    (ascii "initial_heading_deg", parsed P (stod P) fun x cfg => { cfg with initialHeadingDeg := x }),
    (ascii "initial_fuel_kg", parsed P (stod P) fun x cfg => { cfg with initialFuelKg := x }),
    (ascii "wind_north_ms", parsed P (stod P) fun x cfg => { cfg with windNorthMs := x }),
    (ascii "wind_east_ms", parsed P (stod P) fun x cfg => { cfg with windEastMs := x }),
    (ascii "wind_down_ms", parsed P (stod P) fun x cfg => { cfg with windDownMs := x }),
    (ascii "gust_intensity", parsed P (stod P) fun x cfg => { cfg with gustIntensity := x }),
    (ascii "elevator_sensitivity", parsed P (stod P) fun x cfg => { cfg with elevatorSensitivity := x }),
    (ascii "aileron_sensitivity", parsed P (stod P) fun x cfg => { cfg with aileronSensitivity := x }),
    (ascii "rudder_sensitivity", parsed P (stod P) fun x cfg => { cfg with rudderSensitivity := x }) ]

/-- An unknown key and an exception leave the configuration as it is. -/
def assign (cfg : FileConfig (Binary64 P)) (key val : Text) : FileConfig (Binary64 P) :=
  match (settings P).lookup key with
  | none => cfg
  | some read =>
    match read val with
    | none => cfg
    | some set => set cfg

def applyLine (cfg : FileConfig (Binary64 P)) (line : Text) : FileConfig (Binary64 P) :=
  match entry line with
  | some (key, val) => assign P cfg key val
  | none => cfg

def lines (text : Text) : List Text := Delimited.getlines 10 text

/-- `none` is a file that cannot be opened. -/
def loadConfig (file : Option Text) : FileConfig (Binary64 P) :=
  match file with
  | some text => (lines text).foldl (applyLine P) (defaultConfig P)
  | none => defaultConfig P

end Load

section Written

variable {α β : Type}

/-- What the last line of the key says, of those whose value parses. -/
def lastParsed (key : Text) (parse : Text → Option α) (lines : List Text) : Option α :=
  (lines.filterMap fun line => (entry line).bind fun (k, val) => if k = key then parse val else none).getLast?

theorem lastParsed_concat (key : Text) (parse : Text → Option α) (lines : List Text) (line : Text) :
    lastParsed key parse (lines ++ [line]) =
      ((entry line).bind fun (k, val) => if k = key then parse val else none).or (lastParsed key parse lines) := by
  unfold lastParsed
  rw [List.filterMap_append, List.filterMap_cons, List.filterMap_nil]
  split
  next h => rw [h, List.append_nil, Option.none_or]
  next h => rw [h, List.getLast?_concat, Option.some_or]

variable {P : Platform}

/-- A line of the key, and no other, gives the field what `f` makes of the parsed value. -/
def SetBy (key : Text) (parse : Text → Option β) (f : β → α) (field : FileConfig (Binary64 P) → α) : Prop :=
  ∀ cfg k val, field (assign P cfg k val) = if k = key then ((parse val).map f).getD (field cfg) else field cfg

def Untouched (field : FileConfig (Binary64 P) → α) (read : Setter P) : Prop :=
  ∀ val set, read val = some set → ∀ cfg, field (set cfg) = field cfg

variable {key : Text} {parse : Text → Option β} {f : β → α} {field : FileConfig (Binary64 P) → α}
  {set : β → FileConfig (Binary64 P) → FileConfig (Binary64 P)}

theorem untouched_parsed (h : ∀ x cfg, field (set x cfg) = field cfg) : Untouched field (parsed P parse set) := by
  intro val read hread cfg
  obtain ⟨x, -, rfl⟩ := Option.map_eq_some_iff.mp hread
  exact h x cfg

theorem nodup_settings : ((settings P).map Prod.fst).Nodup := of_decide_eq_true (by rfl)

theorem lookup_settings {read : Setter P} (h : (key, read) ∈ settings P) : (settings P).lookup key = some read := by
  obtain ⟨before, behind, hsettings⟩ := List.append_of_mem h
  refine List.lookup_eq_some_iff.mpr ⟨before, behind, hsettings, fun s hs => ?_⟩
  have hnodup := nodup_settings (P := P)
  rw [hsettings, List.map_append] at hnodup
  have hne := (List.nodup_append.mp hnodup).2.2 s.1 (List.mem_map_of_mem hs) key List.mem_cons_self
  exact bne_iff_ne.mpr hne.symm

theorem setBy_of_getElem? (i : ℕ) (hkey : (settings P)[i]? = some (key, parsed P parse set))
    (hset : ∀ x cfg, field (set x cfg) = f x) (hother : ∀ s ∈ settings P, s.1 = key ∨ Untouched field s.2) :
    SetBy key parse f field := by
  intro cfg k val
  unfold assign
  split_ifs with hk
  · subst hk
    rw [lookup_settings (List.mem_of_getElem? hkey)]
    simp only [parsed]
    cases parse val with
    | none => rfl
    | some x => exact hset x cfg
  · split
    · rfl
    next read hlookup =>
      split
      · rfl
      next set hread =>
        obtain ⟨before, behind, hsettings, -⟩ := List.lookup_eq_some_iff.mp hlookup
        have hmem : (k, read) ∈ settings P := by
          rw [hsettings]
          exact List.mem_append_right _ List.mem_cons_self
        obtain hkey | huntouched := hother (k, read) hmem
        · exact absurd hkey hk
        · exact huntouched val set hread cfg

theorem SetBy.foldl_applyLine (h : SetBy key parse f field) (lines : List Text) (cfg : FileConfig (Binary64 P)) :
    field (lines.foldl (applyLine P) cfg) = ((lastParsed key parse lines).map f).getD (field cfg) := by
  induction lines using List.reverseRecOn with
  | nil => rfl
  | append_singleton lines line ih =>
    rw [List.foldl_append, List.foldl_cons, List.foldl_nil, lastParsed_concat, applyLine]
    cases entry line with
    | none => rw [ih, Option.bind_none, Option.none_or]
    | some e =>
      obtain ⟨k, val⟩ := e
      simp only [Option.bind_some]
      rw [h, ih]
      split_ifs
      · cases parse val with
        | none => rw [Option.map_none, Option.getD_none, Option.none_or]
        | some x => rfl
      · rw [Option.none_or]

variable (P)

/-- The fields of type `double` that are tested, under their keys. -/
def tested : List (Text × (FileConfig (Binary64 P) → Binary64 P)) :=
  [ (ascii "time_step", fun cfg => cfg.timeStep),
    (ascii "max_sim_time", fun cfg => cfg.maxSimTime),
    (ascii "telemetry_rate_hz", fun cfg => cfg.telemetryRateHz),
    (ascii "initial_altitude_m", fun cfg => cfg.initialAltitudeM),
    (ascii "initial_airspeed_ms", fun cfg => cfg.initialAirspeedMs),
    (ascii "initial_heading_deg", fun cfg => cfg.initialHeadingDeg),
    (ascii "initial_fuel_kg", fun cfg => cfg.initialFuelKg),
    (ascii "gust_intensity", fun cfg => cfg.gustIntensity),
    (ascii "elevator_sensitivity", fun cfg => cfg.elevatorSensitivity),
    (ascii "aileron_sensitivity", fun cfg => cfg.aileronSensitivity),
    (ascii "rudder_sensitivity", fun cfg => cfg.rudderSensitivity) ]

theorem setBy_key : (∀ t ∈ tested P, SetBy t.1 (Binary64.stod P) id t.2) ∧
    SetBy (P := P) (ascii "telemetry_port") Decimal.stoi toUint16 (fun cfg => cfg.telemetryPort) ∧
    SetBy (P := P) (ascii "command_port") Decimal.stoi toUint16 (fun cfg => cfg.commandPort) := by
  simp only [tested, List.forall_mem_cons]
  -- Each key with its place in the table.
  refine ⟨⟨setBy_of_getElem? 0 rfl (fun _ _ => rfl) ?_, setBy_of_getElem? 1 rfl (fun _ _ => rfl) ?_,
    setBy_of_getElem? 7 rfl (fun _ _ => rfl) ?_, setBy_of_getElem? 15 rfl (fun _ _ => rfl) ?_,
    setBy_of_getElem? 16 rfl (fun _ _ => rfl) ?_, setBy_of_getElem? 17 rfl (fun _ _ => rfl) ?_,
    setBy_of_getElem? 18 rfl (fun _ _ => rfl) ?_, setBy_of_getElem? 22 rfl (fun _ _ => rfl) ?_,
    setBy_of_getElem? 23 rfl (fun _ _ => rfl) ?_, setBy_of_getElem? 24 rfl (fun _ _ => rfl) ?_,
    setBy_of_getElem? 25 rfl (fun _ _ => rfl) ?_, List.forall_mem_nil _⟩,
    setBy_of_getElem? 3 rfl (fun _ _ => rfl) ?_, setBy_of_getElem? 5 rfl (fun _ _ => rfl) ?_⟩
  all_goals
    simp only [settings, List.forall_mem_cons]
    repeat' apply And.intro
  all_goals
    first
    | exact .inl trivial
    | exact .inr (untouched_parsed fun _ _ => rfl)
    | exact List.forall_mem_nil _

end Written

section Range

variable {K : Type*} [OfScientific K] [LE K] [LT K]

/-- The ranges that the messages of `validateConfig` name. -/
structure Config.InRange (cfg : Config K) : Prop where
  timeStep : 0.0 < cfg.timeStep ∧ cfg.timeStep ≤ 0.1
  maxSimTime : 0.0 ≤ cfg.maxSimTime
  ports : 0 < cfg.telemetryPort ∧ 0 < cfg.commandPort ∧ cfg.telemetryPort ≠ cfg.commandPort
  telemetryRateHz : 0.0 < cfg.telemetryRateHz
  window : 320 ≤ cfg.windowWidth ∧ 240 ≤ cfg.windowHeight
  initialAltitudeM : 0.0 ≤ cfg.initialAltitudeM ∧ cfg.initialAltitudeM ≤ 50000.0
  initialAirspeedMs : 0.0 ≤ cfg.initialAirspeedMs ∧ cfg.initialAirspeedMs ≤ 500.0
  initialHeadingDeg : 0.0 ≤ cfg.initialHeadingDeg ∧ cfg.initialHeadingDeg < 360.0
  initialFuelKg : 0.0 ≤ cfg.initialFuelKg
  gustIntensity : 0.0 ≤ cfg.gustIntensity ∧ cfg.gustIntensity ≤ 1.0
  elevatorSensitivity : 0.0 < cfg.elevatorSensitivity ∧ cfg.elevatorSensitivity ≤ 5.0
  aileronSensitivity : 0.0 < cfg.aileronSensitivity ∧ cfg.aileronSensitivity ≤ 5.0
  rudderSensitivity : 0.0 < cfg.rudderSensitivity ∧ cfg.rudderSensitivity ≤ 5.0

variable {P : Platform} {cfg : FileConfig (Binary64 P)}

open Binary64

theorem inRange_iff (h : validateConfig cfg.toConfig = .ok ()) :
    cfg.InRange ↔ ∀ t ∈ tested P, t.2 cfg ≠ nan := by
  simp only [tested, List.forall_mem_cons]
  constructor
  · intro hr
    exact ⟨ne_nan_of_literal_lt hr.timeStep.1, ne_nan_of_literal_le hr.maxSimTime,
      ne_nan_of_literal_lt hr.telemetryRateHz, ne_nan_of_literal_le hr.initialAltitudeM.1,
      ne_nan_of_literal_le hr.initialAirspeedMs.1, ne_nan_of_literal_le hr.initialHeadingDeg.1,
      ne_nan_of_literal_le hr.initialFuelKg, ne_nan_of_literal_le hr.gustIntensity.1,
      ne_nan_of_literal_lt hr.elevatorSensitivity.1, ne_nan_of_literal_lt hr.aileronSensitivity.1,
      ne_nan_of_literal_lt hr.rudderSensitivity.1, List.forall_mem_nil _⟩
  · rintro ⟨htime, hmax, hrate, haltitude, hairspeed, hheading, hfuel, hgust, helevator, haileron, hrudder, -⟩
    simp only [validateConfig, error_else_ok, not_or, not_le_literal, not_lt_literal, not_gt_literal, not_ge_literal,
      ne_eq, htime, hmax, hrate, haltitude, hairspeed, hheading, hfuel, hgust, helevator, haileron, hrudder,
      not_false_eq_true, and_true] at h
    obtain ⟨htime, hmax, htelemetry, hcommand, hports, hrate, hwindow, haltitude, hairspeed, hheading, hfuel, hgust,
      helevator, haileron, hrudder⟩ := h
    refine ⟨htime, hmax, ⟨?_, ?_, hports⟩, hrate, ⟨?_, ?_⟩, haltitude, hairspeed, hheading, hfuel, hgust, helevator,
      haileron, hrudder⟩
    all_goals omega

end Range

section Accepted

variable (P : Platform) (text : Text)

open Binary64

/-- The configuration of a file is in range, and the ports are those that the file gives last. -/
structure AsWritten : Prop where
  inRange : (loadConfig P (some text)).InRange
  telemetryPort (n : ℤ) : lastParsed (ascii "telemetry_port") Decimal.stoi (lines text) = some n →
    (loadConfig P (some text)).telemetryPort = n
  commandPort (n : ℤ) : lastParsed (ascii "command_port") Decimal.stoi (lines text) = some n →
    (loadConfig P (some text)).commandPort = n

/-- No NaN stands last for a tested number, and no port outside sixteen bits. -/
structure Plain : Prop where
  numbers : ∀ t ∈ tested P, lastParsed t.1 (stod P) (lines text) ≠ some nan
  telemetryPort (n : ℤ) : lastParsed (ascii "telemetry_port") Decimal.stoi (lines text) = some n → 0 ≤ n ∧ n < 65536
  commandPort (n : ℤ) : lastParsed (ascii "command_port") Decimal.stoi (lines text) = some n → 0 ≤ n ∧ n < 65536

variable {P text}

theorem default_ne_nan : ∀ t ∈ tested P, t.2 (defaultConfig P) ≠ nan := by
  simp only [tested, List.forall_mem_cons]
  repeat' apply And.intro
  all_goals
    first
    | exact literal_ne_nan
    | exact List.forall_mem_nil _

theorem loadConfig_ne_nan_iff {t : Text × (FileConfig (Binary64 P) → Binary64 P)} (ht : t ∈ tested P) :
    t.2 (loadConfig P (some text)) ≠ nan ↔ lastParsed t.1 (stod P) (lines text) ≠ some nan := by
  have hload : t.2 (loadConfig P (some text)) =
      ((lastParsed t.1 (stod P) (lines text)).map id).getD (t.2 (defaultConfig P)) :=
    ((setBy_key P).1 t ht).foldl_applyLine _ _
  rw [hload, Option.map_id, id]
  cases lastParsed t.1 (stod P) (lines text) with
  | none => simpa using default_ne_nan t ht
  | some x => simp

theorem port_eq_iff {key : Text} {port : FileConfig (Binary64 P) → ℕ} (h : SetBy key Decimal.stoi toUint16 port)
    {n : ℤ} (hn : lastParsed key Decimal.stoi (lines text) = some n) :
    (port (loadConfig P (some text)) : ℤ) = n ↔ 0 ≤ n ∧ n < 65536 := by
  have hload : port (loadConfig P (some text)) =
      ((lastParsed key Decimal.stoi (lines text)).map toUint16).getD (port (defaultConfig P)) :=
    h.foldl_applyLine _ _
  rw [hload, hn]
  exact toUint16_eq_iff

theorem asWritten_iff (h : validateConfig (loadConfig P (some text)).toConfig = .ok ()) :
    AsWritten P text ↔ Plain P text := by
  obtain ⟨-, htelemetry, hcommand⟩ := setBy_key P
  have hrange : (loadConfig P (some text)).InRange ↔
      ∀ t ∈ tested P, lastParsed t.1 (stod P) (lines text) ≠ some nan := by
    rw [inRange_iff h]
    exact forall₂_congr fun t ht => loadConfig_ne_nan_iff ht
  constructor
  · intro hw
    refine ⟨hrange.mp hw.inRange, fun n hn => ?_, fun n hn => ?_⟩
    · exact (port_eq_iff htelemetry hn).mp (hw.telemetryPort n hn)
    · exact (port_eq_iff hcommand hn).mp (hw.commandPort n hn)
  · intro hp
    refine ⟨hrange.mpr hp.numbers, fun n hn => ?_, fun n hn => ?_⟩
    · exact (port_eq_iff htelemetry hn).mpr (hp.telemetryPort n hn)
    · exact (port_eq_iff hcommand hn).mpr (hp.commandPort n hn)

/-- A file with a comment, a malformed and an unknown line, and a port given twice. -/
def cruise : Text :=
  ascii ("# cruise\ntime_step = 0.05\nwings\nflaps = 2\n" ++
    "telemetry_port = 70000\ntelemetry_port = 6000\ncommand_port = x\n")

theorem asWritten_cruise : AsWritten .exact cruise :=
  (asWritten_iff (by decide +kernel)).mpr
    { numbers := by decide +kernel
      telemetryPort := by
        have hlast : lastParsed (ascii "telemetry_port") Decimal.stoi (lines cruise) = some 6000 := by decide +kernel
        simp [hlast]
      commandPort := by
        have hlast : lastParsed (ascii "command_port") Decimal.stoi (lines cruise) = none := by decide +kernel
        simp [hlast] }

def storm : Text := ascii "time_step = nan\ntelemetry_port = 70000\n"

/-- The step is no number, and the port is 70000 modulo 2¹⁶. -/
theorem not_asWritten_storm :
    validateConfig (loadConfig .exact (some storm)).toConfig = .ok () ∧ ¬ AsWritten .exact storm ∧
      (loadConfig .exact (some storm)).timeStep = nan ∧ (loadConfig .exact (some storm)).telemetryPort = 4464 := by
  have hstep : (loadConfig .exact (some storm)).timeStep = nan := by decide +kernel
  refine ⟨by decide +kernel, fun hw => ?_, hstep, by decide +kernel⟩
  exact ne_nan_of_literal_lt hw.inRange.timeStep.1 hstep

end Accepted

end Klett.Luft
