import Klett.Lib.Significant
import Klett.Sor.FixIdentity
import Klett.Sor.FixMessageBuilder

namespace Klett.Sor

open Klett.Lib

section Prices

variable {P : Platform} {p : ℤ}

theorem ofInt_priceScale (hP : P.Accurate) : P.ofInt priceScale = 10 ^ 8 := by
  rw [Platform.ofInt, hP.integer (by norm_num [priceScale])]
  norm_num [priceScale]

theorem toDouble_eq (hP : P.Accurate) (hp : |p| ≤ 2 ^ 53) : toDouble P p = P.round ((p : ℚ) / 10 ^ 8) := by
  rw [toDouble, Platform.div, ofInt_priceScale hP, Platform.ofInt, hP.integer hp]

theorem abs_price (p : ℤ) : |(p : ℚ) / 10 ^ 8| = |(p : ℚ)| / 10 ^ 8 := by
  rw [abs_div, abs_of_pos (a := (10 : ℚ) ^ 8) (by norm_num)]

theorem one_le_abs (hne : p ≠ 0) : 1 ≤ |(p : ℚ)| := by exact_mod_cast Int.one_le_abs hne

theorem round_price (hP : P.Accurate) (hne : p ≠ 0) (hp : |p| ≤ 2 ^ 50) :
    |P.round ((p : ℚ) / 10 ^ 8) - p / 10 ^ 8| ≤ |(p : ℚ)| / 10 ^ 8 / 2 ^ 53 := by
  have hone := one_le_abs hne
  have hmost : |(p : ℚ)| ≤ 2 ^ 50 := by exact_mod_cast hp
  rw [← abs_price]
  apply hP.near
  · rw [abs_price]
    linarith
  · rw [abs_price]
    linarith

theorem mul_priceScale (hP : P.Accurate) (hne : p ≠ 0) (hp : |p| ≤ 2 ^ 50) :
    |P.mul (P.round ((p : ℚ) / 10 ^ 8)) (P.ofInt priceScale) - p| ≤ |(p : ℚ)| * (9 / 4 / 2 ^ 53) := by
  have hone := one_le_abs hne
  have hmost : |(p : ℚ)| ≤ 2 ^ 50 := by exact_mod_cast hp
  have hround := round_price hP hne hp
  rw [ofInt_priceScale hP, Platform.mul]
  generalize P.round ((p : ℚ) / 10 ^ 8) = w at hround ⊢
  have hscaled : |w * 10 ^ 8 - p| ≤ |(p : ℚ)| / 2 ^ 53 := by
    have hsplit : w * 10 ^ 8 - p = (w - p / 10 ^ 8) * 10 ^ 8 := by ring
    calc |w * 10 ^ 8 - p| = |w - p / 10 ^ 8| * 10 ^ 8 := by
          rw [hsplit, abs_mul, abs_of_pos (a := (10 : ℚ) ^ 8) (by norm_num)]
      _ ≤ |(p : ℚ)| / 10 ^ 8 / 2 ^ 53 * 10 ^ 8 := by gcongr
      _ = |(p : ℚ)| / 2 ^ 53 := by ring
  have habove := abs_sub_abs_le_abs_sub (w * 10 ^ 8) (p : ℚ)
  have hbelow := abs_sub_abs_le_abs_sub (p : ℚ) (w * 10 ^ 8)
  rw [abs_sub_comm] at hbelow
  have herror := hP.near (x := w * 10 ^ 8)
  have htriangle := abs_sub_le (P.round (w * 10 ^ 8)) (w * 10 ^ 8) p
  generalize |(p : ℚ)| = n at *
  generalize |w * 10 ^ 8 - p| = gap at *
  generalize |w * 10 ^ 8| = size at *
  generalize |P.round (w * 10 ^ 8) - w * 10 ^ 8| = error at *
  generalize |P.round (w * 10 ^ 8) - p| = total at *
  have hclose := herror (by linarith) (by linarith)
  linarith

/-- Half a unit further, rounded again, it is still less than half a unit off. -/
theorem half_away (hP : P.Accurate) (hp : |p| ≤ 2 ^ 50) {y h : ℚ} (hy : |y - p| ≤ |(p : ℚ)| * (9 / 4 / 2 ^ 53))
    (hh : |h| = 1 / 2) : |P.round (y + h) - (p + h)| < 1 / 2 := by
  have hmost : |(p : ℚ)| ≤ 2 ^ 50 := by exact_mod_cast hp
  have hleast : 1 / 2 ≤ |(p : ℚ) + h| := by
    obtain rfl | hne := eq_or_ne p 0
    · rw [Int.cast_zero, zero_add, hh]
    · have hone := one_le_abs hne
      have hrest := abs_sub_abs_le_abs_sub (p : ℚ) (-h)
      rw [abs_neg, sub_neg_eq_add, hh] at hrest
      linarith
  have hshift : (y + h) - (p + h) = y - p := add_sub_add_right_eq_sub _ _ _
  have habove := abs_sub_abs_le_abs_sub (y + h) ((p : ℚ) + h)
  have hbelow := abs_sub_abs_le_abs_sub ((p : ℚ) + h) (y + h)
  have hwide := abs_add_le (p : ℚ) h
  have htriangle := abs_sub_le (P.round (y + h)) (y + h) (p + h)
  have herror := hP.near (x := y + h)
  rw [abs_sub_comm] at hbelow
  rw [hshift] at habove hbelow htriangle
  generalize |(p : ℚ)| = n at *
  generalize |y - p| = gap at *
  generalize |y + h| = size at *
  generalize |P.round (y + h) - (y + h)| = error at *
  generalize |P.round (y + h) - (p + h)| = total at *
  generalize |(p : ℚ) + h| = far at *
  have hclose := herror (by linarith) (by linarith)
  linarith

theorem round_price_nonneg_iff (hP : P.Accurate) (hp : |p| ≤ 2 ^ 50) : 0 ≤ P.round ((p : ℚ) / 10 ^ 8) ↔ 0 ≤ p := by
  obtain hneg | rfl | hpos := lt_trichotomy p 0
  · have hround := round_price hP hneg.ne hp
    have hp' : (p : ℚ) < 0 := by exact_mod_cast hneg
    rw [abs_of_neg hp'] at hround
    have habove := (abs_le.mp hround).2
    exact iff_of_false (by linarith) (by omega)
  · exact iff_of_true (P.round_nonneg (by norm_num)) le_rfl
  · exact iff_of_true (P.round_nonneg (by positivity)) hpos.le

theorem truncate_scaledPrice (hP : P.Accurate) (hp : |p| ≤ 2 ^ 50) :
    Platform.truncate (scaledPrice P (P.round ((p : ℚ) / 10 ^ 8))) = p := by
  have hsign := round_price_nonneg_iff hP hp
  have hy : |P.mul (P.round ((p : ℚ) / 10 ^ 8)) (P.ofInt priceScale) - p| ≤ |(p : ℚ)| * (9 / 4 / 2 ^ 53) := by
    obtain rfl | hne := eq_or_ne p 0
    · have hzero : P.round 0 = 0 := by simpa using hP.integer (n := 0) (by norm_num)
      simp [hzero, Platform.mul]
    · exact mul_priceScale hP hne hp
  unfold scaledPrice Platform.add
  by_cases hpos : 0 ≤ p
  · obtain ⟨hlow, hhigh⟩ := abs_lt.mp (half_away hP hp hy (h := 1 / 2) (by norm_num))
    rw [if_pos (hsign.mpr hpos)]
    apply Platform.truncate_eq_of_nonneg _ _ hpos
    · linarith
    · linarith
  · obtain ⟨hlow, hhigh⟩ := abs_lt.mp (half_away hP hp hy (h := -1 / 2) (by norm_num))
    rw [if_neg (mt hsign.mp hpos), ← neg_neg (P.round _), Platform.truncate_neg, Platform.truncate_eq_of_nonneg (n := -p)]
    · exact neg_neg p
    · push_cast
      linarith
    · push_cast
      linarith
    · omega

/-- A price of up to 2⁵⁰ comes back from the nearest `double`. -/
theorem toPrice_round (hP : P.Accurate) (hp : |p| ≤ 2 ^ 50) : toPrice P (P.round ((p : ℚ) / 10 ^ 8)) = p := by
  have htruncate := truncate_scaledPrice hP hp
  obtain ⟨hlow, hhigh⟩ := abs_le.mp hp
  unfold toPrice
  rw [Platform.castInt_of_mem (by omega) (by omega), htruncate]

/-- The conversions between prices and `double` are inverse up to 2⁵⁰. -/
theorem toPrice_toDouble (hP : P.Accurate) (hp : |p| ≤ 2 ^ 50) : toPrice P (toDouble P p) = p := by
  rw [toDouble_eq hP (hp.trans (by norm_num)), toPrice_round hP hp]

theorem toPrice_toDouble_quarter : toPrice .exact (toDouble .exact 15025000000) = 15025000000 :=
  toPrice_toDouble Platform.exact_accurate (by norm_num)

end Prices

section SixDigits

open Decimal

variable {P : Platform} {p : ℤ} {d : ℚ}

/-- A price with six significant digits at most. -/
def Short (p : ℤ) : Prop := ∃ m k : ℕ, m < 10 ^ 6 ∧ p.natAbs = m * 10 ^ k

theorem short_of_lt (h : p.natAbs ≤ 10 ^ 6) : Short p := by
  obtain hlt | heq := h.lt_or_eq
  · exact ⟨p.natAbs, 0, hlt, (Nat.mul_one _).symm⟩
  · exact ⟨1, 6, by norm_num, by rw [heq, Nat.one_mul]⟩

theorem short_value (hshort : Short p) : ∃ (m : ℕ) (j : ℤ), m < 10 ^ (5 + 1) ∧ |(p : ℚ)| / 10 ^ 8 = m * 10 ^ j := by
  obtain ⟨m, k, hm, hp⟩ := hshort
  have hvalue : |(p : ℚ)| = m * 10 ^ k := by
    rw [← Int.cast_abs, ← Nat.cast_natAbs, hp]
    push_cast
    rfl
  refine ⟨m, k - 8, hm, ?_⟩
  rw [hvalue, mul_div_assoc, zpow_sub₀ (by norm_num)]
  norm_cast

/-- From a cent on, six digits make a price. -/
theorem printed_price (hd : 1 / 10 ^ 2 ≤ d) :
    ∃ m k : ℕ, m < 10 ^ 6 ∧ printed 5 d = ((m * 10 ^ k : ℕ) : ℚ) / 10 ^ 8 := by
  have hpos : 0 < d := lt_of_lt_of_le (by norm_num) hd
  have hlog : -2 ≤ Int.log 10 d := by
    apply (Int.zpow_le_iff_le_log (by norm_num) hpos).mp
    exact hd.trans' (by norm_num)
  have hexponent := log_le_scientific 5 d
  obtain ⟨k, hk⟩ := Int.le.dest (show -3 ≤ (scientific 5 d).2 by omega)
  refine ⟨(scientific 5 d).1, k, (scientific_bounds 5 hpos).2, ?_⟩
  rw [printed, ← hk]
  have hsplit : (-3 : ℤ) + k - (5 : ℕ) = k - 8 := by omega
  rw [hsplit, zpow_sub₀ (by norm_num)]
  push_cast
  rw [mul_div_assoc]
  norm_cast

theorem stod_toDouble (hP : P.Accurate) (hne : p ≠ 0) (hp : |p| ≤ 2 ^ 49) : ∃ d, 0 < d ∧
    |d - |(p : ℚ)| / 10 ^ 8| ≤ |(p : ℚ)| / 10 ^ 8 / 2 ^ 53 ∧
    priceFromStr P (general 5 (toDouble P p)) =
      some (toPrice P (P.round (if p < 0 then -printed 5 d else printed 5 d))) := by
  have hbound : |p| ≤ 2 ^ 50 := hp.trans (by norm_num)
  have hone := one_le_abs hne
  have hmost : |(p : ℚ)| ≤ 2 ^ 49 := by exact_mod_cast hp
  have hround := round_price hP hne hbound
  have hsign := round_price_nonneg_iff hP hbound
  rw [toDouble_eq hP (hp.trans (by norm_num))]
  generalize P.round ((p : ℚ) / 10 ^ 8) = w at hround hsign ⊢
  have hnear : |(|w| - |(p : ℚ)| / 10 ^ 8)| ≤ |(p : ℚ)| / 10 ^ 8 / 2 ^ 53 := by
    rw [← abs_price] at hround ⊢
    exact (abs_abs_sub_abs_le w _).trans hround
  obtain ⟨hlow, hhigh⟩ := abs_le.mp hnear
  have hpos : 0 < |w| := by linarith
  obtain ⟨hless, hmore⟩ := abs_le.mp (printed_relative 5 hpos)
  have hleast : 2 ^ (-1022 : ℤ) ≤ printed 5 |w| := by
    calc (2 : ℚ) ^ (-1022 : ℤ) ≤ 2 ^ (-30 : ℤ) := zpow_le_zpow_right₀ (by norm_num) (by norm_num)
      _ ≤ 1 / 10 ^ 9 := by norm_num
      _ ≤ printed 5 |w| := by linarith
  have hgreatest : printed 5 |w| < 2 ^ (1023 : ℤ) := by
    calc printed 5 |w| < 2 ^ (60 : ℤ) := by norm_num; linarith
      _ < 2 ^ (1023 : ℤ) := zpow_lt_zpow_right₀ (by norm_num) (by norm_num)
  have hread := stod_general P 5 (abs_pos.mp hpos) (inRange_of_normal hleast hgreatest)
  have htext : (general 5 w).isEmpty = false := by
    rw [List.isEmpty_eq_false_iff]
    intro hnil
    rw [hnil] at hread
    exact absurd hread (by simp [stod, sign, magnitude, mantissa])
  refine ⟨|w|, hpos, hnear, ?_⟩
  rw [priceFromStr, htext, parsePrice_of_number P hread]
  have hneg : w < 0 ↔ p < 0 := by rw [← not_le, hsign, not_le]
  simp [hneg]

theorem toPrice_signed (hP : P.Accurate) {n : ℕ} (hn : n ≤ 2 ^ 50) (negative : Prop) [Decidable negative] :
    toPrice P (P.round (if negative then -((n : ℚ) / 10 ^ 8) else (n : ℚ) / 10 ^ 8)) =
      if negative then -(n : ℤ) else n := by
  have hsize : |(n : ℤ)| ≤ 2 ^ 50 := by
    rw [Nat.abs_cast]
    exact_mod_cast hn
  split_ifs
  · have hback := toPrice_round hP (p := -(n : ℤ)) (by rwa [abs_neg])
    rwa [Int.cast_neg, Int.cast_natCast, neg_div] at hback
  · have hback := toPrice_round hP hsize
    rwa [Int.cast_natCast] at hback

/-- A price printed with six digits is read back when it has no more. -/
theorem priceFromStr_general (hP : P.Accurate) (hp : |p| ≤ 2 ^ 49) :
    ∃ read, priceFromStr P (general 5 (toDouble P p)) = some read ∧ (read = p ↔ Short p) := by
  obtain rfl | hne := eq_or_ne p 0
  · have hzero : P.round 0 = 0 := by simpa using hP.integer (n := 0) (by norm_num)
    have hdouble : toDouble P 0 = 0 := by
      rw [toDouble_eq hP (by norm_num), Int.cast_zero, zero_div, hzero]
    have hprice : toPrice P 0 = 0 := by
      have hback := toPrice_round hP (p := 0) (by norm_num)
      rwa [Int.cast_zero, zero_div, hzero] at hback
    refine ⟨0, ?_, iff_of_true rfl (short_of_lt (by norm_num))⟩
    rw [hdouble, general, if_pos rfl, priceFromStr, parsePrice_of_number P (stod_zero P)]
    simp [hprice, ofNat_ne_nil]
  · obtain ⟨d, hd, hnear, hread⟩ := stod_toDouble hP hne hp
    have hmost : |(p : ℚ)| ≤ 2 ^ 49 := by exact_mod_cast hp
    refine ⟨_, hread, ?_⟩
    constructor
    · intro heq
      by_cases hsmall : p.natAbs ≤ 10 ^ 6
      · exact short_of_lt hsmall
      · have hlarge : (10 : ℚ) ^ 6 + 1 ≤ |(p : ℚ)| := by
          have hnat : 10 ^ 6 + 1 ≤ p.natAbs := by omega
          rw [← Int.cast_abs, ← Nat.cast_natAbs]
          exact_mod_cast hnat
        obtain ⟨hlow, hhigh⟩ := abs_le.mp hnear
        obtain ⟨hless, hmore⟩ := abs_le.mp (printed_relative 5 hd)
        obtain ⟨m, k, hm, hvalue⟩ := printed_price (d := d) (by linarith)
        have hsize : ((m * 10 ^ k : ℕ) : ℚ) ≤ 2 ^ 50 := by linarith
        rw [hvalue, toPrice_signed hP (by exact_mod_cast hsize)] at heq
        refine ⟨m, k, hm, ?_⟩
        split_ifs at heq
        all_goals omega
    · intro hshort
      obtain ⟨m, j, hm, hvalue⟩ := short_value hshort
      have hprinted : printed 5 d = (p.natAbs : ℚ) / 10 ^ 8 := by
        rw [Nat.cast_natAbs, Int.cast_abs]
        rw [hvalue] at hnear ⊢
        exact printed_of_double hm (by norm_num) hd hnear
      rw [Int.abs_eq_natAbs] at hp
      rw [hprinted, toPrice_signed hP (by omega)]
      split_ifs
      all_goals omega

/-- A price of 1234.5678 comes back as 1234.57. -/
example : priceFromStr .exact (general 5 (toDouble .exact 123456780000)) = some 123457000000 := by decide +kernel

end SixDigits

namespace FixGateway

open FixMessageBuilder Decimal FixedString

section Report

def cStr {n : ℕ} (s : FixedString n) : FixMessageBuilder.Text := s.data.takeWhile (· ≠ 0)

def ordStatusText : OrderState → String
  | .new => "A"
  | .accepted => "0"
  | .partiallyFilled => "1"
  | .filled => "2"
  | .canceled => "4"
  | .rejected => "8"
  | .expired => "C"
  | .pendingCancel => "6"
  | .pendingNew => "A"
  | .pendingReplace => "E"

variable (P : Platform) (order : Order) (report : ExecutionReport)

def reportFields : Fields :=
  [(35, ascii "8"), (11, ofNat order.clientOrderId), (37, ofNat order.id), (17, ofNat report.execId),
    (55, cStr order.symbol), (54, if order.side = .buy then ascii "1" else ascii "2"),
    (39, ascii (ordStatusText report.state)), (31, general 5 (toDouble P report.lastPrice)),
    (32, ofInt report.lastQuantity), (14, ofInt report.cumQuantity), (6, general 5 (toDouble P report.avgPrice)),
    (151, ofInt report.leavesQuantity)] ++ if report.text.empty then [] else [(58, cStr report.text)]

def buildExecutionReport : FixMessageBuilder.Text :=
  (reportFields P order report).flatMap fun e => FixMessage.fieldText e ++ [soh]

/-- The message that a reader of fields takes. -/
def asMessage (fields : Fields) : FixMessage :=
  { type := .executionReport, fields := fun tag => (fields.find? (·.1 = tag)).map Prod.snd }

/-- What the types hold, and texts that end where their string does and go without the delimiter. -/
structure Sendable : Prop where
  orderId : order.id < 2 ^ 64
  execId : report.execId < 2 ^ 64
  lastPrice : |report.lastPrice| ≤ 2 ^ 49
  avgPrice : |report.avgPrice| ≤ 2 ^ 49
  lastQuantity : -2 ^ 63 ≤ report.lastQuantity ∧ report.lastQuantity < 2 ^ 63
  cumQuantity : -2 ^ 63 ≤ report.cumQuantity ∧ report.cumQuantity < 2 ^ 63
  leavesQuantity : -2 ^ 63 ≤ report.leavesQuantity ∧ report.leavesQuantity < 2 ^ 63
  symbol : soh ∉ order.symbol.data
  text : soh ∉ report.text.data ∧ 0 ∉ report.text.data

end Report

section RoundTrip

variable {P : Platform} {order : Order} {report : ExecutionReport}

theorem not_mem_cStr {n : ℕ} {s : FixedString n} (h : soh ∉ s.data) : soh ∉ cStr s :=
  fun hc => h ((List.takeWhile_sublist _).subset hc)

theorem reportFields_nodup : ((reportFields P order report).map Prod.fst).Nodup := by
  unfold reportFields
  split_ifs
  all_goals
    simp only [List.map_append, List.map_cons, List.map_nil]
    decide

theorem reportFields_clean (h : Sendable order report) : Clean (reportFields P order report) := by
  have hdigit : isDigit 10 soh = false := by decide
  have hinteger (z : ℤ) : soh ∉ ofInt z := FixMessage.not_mem_ofInt (by decide) hdigit z
  have hgeneral (x : ℚ) : soh ∉ general 5 x := by
    intro hc
    obtain hc | hc := mem_general hc
    · exact absurd hc (by decide)
    · exact absurd hc (by decide)
  have hside : soh ∉ (if order.side = .buy then ascii "1" else ascii "2") := by
    split_ifs
    all_goals decide
  have hstate : soh ∉ ascii (ordStatusText report.state) := by
    cases report.state
    all_goals decide
  unfold Clean reportFields
  rw [List.forall_mem_append]
  constructor
  · simp only [List.forall_mem_cons]
    exact ⟨by decide, not_mem_ofNat hdigit _, not_mem_ofNat hdigit _, not_mem_ofNat hdigit _, not_mem_cStr h.symbol,
      hside, hstate, hgeneral _, hinteger _, hinteger _, hgeneral _, hinteger _, List.forall_mem_nil _⟩
  · intro e he
    split_ifs at he
    · exact absurd he List.not_mem_nil
    · rw [List.mem_singleton.mp he]
      exact not_mem_cStr h.text.1

theorem parseMessage_buildExecutionReport (h : Sendable order report) :
    parseMessage (buildExecutionReport P order report) = some (reportFields P order report) := by
  have hne : reportFields P order report ≠ [] := by simp [reportFields]
  have hupdate : Fields.update [] (reportFields P order report) = reportFields P order report := by
    apply Fields.update_new reportFields_nodup
    simp
  rw [buildExecutionReport, ← fieldsText_eq hne, parseMessage_fieldsText (reportFields_clean h) hne, hupdate]

theorem ordStatusFromFix_text : ordStatusFromFix (ascii (ordStatusText report.state)) = report.state ↔
    report.state ≠ .new := by
  cases report.state
  all_goals decide

theorem get_text (h : 0 ∉ report.text.data) :
    (.assign ((asMessage (reportFields P order report)).get FixMessage.text) : FixedString 64) = report.text := by
  have hwhole : cStr report.text = report.text.data := by
    apply List.takeWhile_eq_self_iff.mpr
    intro b hb
    simp only [decide_eq_true_eq]
    rintro rfl
    exact h hb
  have hget : (asMessage (reportFields P order report)).get FixMessage.text = report.text.data := by
    unfold reportFields
    by_cases hempty : report.text.empty = true
    · rw [if_pos hempty]
      exact (List.isEmpty_iff.mp hempty).symm
    · rw [if_neg hempty]
      exact hwhole
  rw [hget, assign]
  congr
  exact List.take_of_length_le report.text.fits

/-- The adapter reads a report of the gateway as it was, but for a new order's state and for prices of more than six
digits. -/
theorem report_read_iff (hP : P.Accurate) (h : Sendable order report) :
    ∃ fields, parseMessage (buildExecutionReport P order report) = some fields ∧
      (FixAdapter.execFromFix P (asMessage fields) = some { report with orderId := order.id, venueId := 0 } ↔
        report.state ≠ .new ∧ Short report.lastPrice ∧ Short report.avgPrice) := by
  refine ⟨_, parseMessage_buildExecutionReport h, ?_⟩
  obtain ⟨lastPrice, hlast, hlastShort⟩ := priceFromStr_general hP h.lastPrice
  obtain ⟨avgPrice, havg, havgShort⟩ := priceFromStr_general hP h.avgPrice
  have hid {id : ℕ} (hid : id < 2 ^ 64) : idFromStr (ofNat id) = some id := FixIdentity.idFromStr_idToStr hid
  have hquantity {z : ℤ} (hz : -2 ^ 63 ≤ z ∧ z < 2 ^ 63) : qtyFromStr (ofInt z) = some z := by
    rw [qtyFromStr, if_neg (by simp [ofInt_ne_nil]), stoll_ofInt hz]
  let msg := asMessage (reportFields P order report)
  have horderId : msg.get FixMessage.orderId = ofNat order.id := rfl
  have hexecId : msg.get FixMessage.execId = ofNat report.execId := rfl
  have hlastPx : msg.get FixMessage.lastPx = general 5 (toDouble P report.lastPrice) := rfl
  have hlastQty : msg.get FixMessage.lastQty = ofInt report.lastQuantity := rfl
  have havgPx : msg.get FixMessage.avgPx = general 5 (toDouble P report.avgPrice) := rfl
  have hcumQty : msg.get FixMessage.cumQty = ofInt report.cumQuantity := rfl
  have hleavesQty : msg.get FixMessage.leavesQty = ofInt report.leavesQuantity := rfl
  have hstatus : msg.get FixMessage.ordStatus = ascii (ordStatusText report.state) := rfl
  have hread : FixAdapter.execFromFix P msg = some { report with
      orderId := order.id
      state := ordStatusFromFix (ascii (ordStatusText report.state))
      lastPrice := lastPrice
      avgPrice := avgPrice
      venueId := 0 } := by
    unfold FixAdapter.execFromFix
    rw [get_text h.text.2, horderId, hexecId, hlastPx, hlastQty, havgPx, hcumQty, hleavesQty, hstatus,
      if_neg (by simp [ofNat_ne_nil]), hid h.orderId, hid h.execId, hlast, havg, hquantity h.lastQuantity,
      hquantity h.cumQuantity, hquantity h.leavesQuantity]
    rfl
  rw [hread, ← ordStatusFromFix_text, ← hlastShort, ← havgShort]
  simp

def filledOrder : Order := { id := 7, clientOrderId := 12, symbol := .assign (ascii "IBM") }

def lastFill : ExecutionReport where
  orderId := 9
  execId := 3
  state := .filled
  lastPrice := 15025000000
  lastQuantity := 100
  avgPrice := 15025000000
  cumQuantity := 100
  venueId := 2

theorem report_read_iff_fill : ∃ fields, parseMessage (buildExecutionReport .exact filledOrder lastFill) = some fields ∧
    (FixAdapter.execFromFix .exact (asMessage fields) = some { lastFill with orderId := 7, venueId := 0 } ↔
      lastFill.state ≠ .new ∧ Short lastFill.lastPrice ∧ Short lastFill.avgPrice) :=
  report_read_iff Platform.exact_accurate
    { orderId := by decide
      execId := by decide
      lastPrice := by decide
      avgPrice := by decide
      lastQuantity := by decide
      cumQuantity := by decide
      leavesQuantity := by decide
      symbol := by decide
      text := by decide }

end RoundTrip

end FixGateway

end Klett.Sor
