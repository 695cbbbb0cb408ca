import Klett.Lib.Decimal
import Klett.Lib.Rounding
import Mathlib.Data.Int.Log

/-!
Numbers in text with so many significant digits, as `%g` prints them, and what `strtod` reads of them.
-/

namespace Klett.Lib

namespace Platform

variable {P : Platform} {x : ℚ} {n : ℤ}

theorem truncate_eq_of_nonneg (hlow : (n : ℚ) ≤ x) (hhigh : x < n + 1) (hn : 0 ≤ n) : truncate x = n := by
  have hx : 0 ≤ x := (Int.cast_nonneg hn).trans hlow
  have hfloor : x.num / x.den = n := by
    rw [← Rat.floor_def]
    exact Int.floor_eq_iff.mpr ⟨hlow, hhigh⟩
  rw [truncate, Int.tdiv_eq_ediv_of_nonneg (Rat.num_nonneg.mpr hx), hfloor]

theorem truncate_neg (x : ℚ) : truncate (-x) = -truncate x := by
  unfold truncate
  rw [Rat.neg_num, Rat.neg_den, Int.neg_tdiv]

/-- Numbers that are neither tiny nor huge have a small error. -/
theorem Accurate.near (hP : P.Accurate) (hlow : 1 / 10 ^ 9 ≤ |x|) (hhigh : |x| ≤ 2 ^ 60) :
    |P.round x - x| ≤ |x| / 2 ^ 53 := by
  apply hP.relative
  · calc (2 : ℚ) ^ (-1022 : ℤ) ≤ 2 ^ (-30 : ℤ) := zpow_le_zpow_right₀ (by norm_num) (by norm_num)
      _ ≤ 1 / 10 ^ 9 := by norm_num
      _ ≤ |x| := hlow
  · calc |x| ≤ 2 ^ (60 : ℤ) := by exact_mod_cast hhigh
      _ < 2 ^ (1023 : ℤ) := zpow_lt_zpow_right₀ (by norm_num) (by norm_num)

end Platform

namespace Decimal

section General

/-- The first digit of a positive number with `k` more, rounded, and the exponent of the first. -/
def scientific (k : ℕ) (x : ℚ) : ℕ × ℤ :=
  let e := Int.log 10 x
  let m := (roundHalfEven (x * 10 ^ (k - e))).toNat
  if m = 10 ^ (k + 1) then (10 ^ k, e + 1) else (m, e)

def stripZeros (digits : List UInt8) : List UInt8 := (digits.reverse.dropWhile (· = 48)).reverse

/-- The point goes with the zeros when nothing is left behind it. -/
def behindPoint (digits : List UInt8) : List UInt8 :=
  if stripZeros digits = [] then [] else 46 :: stripZeros digits

def exponentText (e : ℤ) : List UInt8 := 101 :: (if e < 0 then 45 else 43) :: padded 2 e.natAbs

def positional (k m : ℕ) (e : ℤ) : List UInt8 :=
  let digits := ofNat m
  if -4 ≤ e ∧ e ≤ k then
    if e < 0 then ofNat 0 ++ behindPoint (List.replicate (-e - 1).toNat 48 ++ digits)
    else digits.take (e.toNat + 1) ++ behindPoint (digits.drop (e.toNat + 1))
  else digits.take 1 ++ behindPoint (digits.drop 1) ++ exponentText e

def general (k : ℕ) (x : ℚ) : List UInt8 :=
  if x = 0 then ofNat 0
  else (if x < 0 then [45] else []) ++ positional k (scientific k |x|).1 (scientific k |x|).2

/-- What a positive number is printed as is worth. -/
def printed (k : ℕ) (x : ℚ) : ℚ := (scientific k x).1 * 10 ^ ((scientific k x).2 - k)

end General

section Text

variable {k m : ℕ} {e : ℤ} {a b s rest : List UInt8}

theorem exists_stripZeros (s : List UInt8) : ∃ j, s = stripZeros s ++ List.replicate j 48 := by
  refine ⟨(s.reverse.takeWhile (· = 48)).length, ?_⟩
  have hzeros : s.reverse.takeWhile (· = 48) = List.replicate (s.reverse.takeWhile (· = 48)).length 48 := by
    apply List.eq_replicate_of_mem
    intro b hb
    simpa using List.mem_takeWhile_imp hb
  have hsplit : s.reverse.takeWhile (· = 48) ++ s.reverse.dropWhile (· = 48) = s.reverse :=
    List.takeWhile_append_dropWhile
  have hback := congrArg List.reverse hsplit
  rw [List.reverse_append, List.reverse_reverse, hzeros, List.reverse_replicate] at hback
  exact hback.symm

theorem fraction_stripZeros (s : List UInt8) : fraction (stripZeros s) = fraction s := by
  obtain ⟨j, hs⟩ := exists_stripZeros s
  conv_rhs => rw [hs, fraction_append_zeros]

theorem mem_stripZeros {c : UInt8} (h : c ∈ stripZeros s) : c ∈ s := by
  obtain ⟨j, hs⟩ := exists_stripZeros s
  rw [hs]
  exact List.mem_append_left _ h

theorem mem_behindPoint {c : UInt8} (h : c ∈ behindPoint s) : c = 46 ∨ c ∈ s := by
  unfold behindPoint at h
  split_ifs at h
  · exact absurd h List.not_mem_nil
  · obtain rfl | h := List.mem_cons.mp h
    · exact .inl rfl
    · exact .inr (mem_stripZeros h)

theorem mantissa_behindPoint (ha : ∀ c ∈ a, isDigit 10 c = true) (hne : a ≠ []) (hb : ∀ c ∈ b, isDigit 10 c = true)
    (hrest : ∀ c ∈ rest.head?, isDigit 10 c = false ∧ c ≠ 46) :
    mantissa 10 (a ++ behindPoint b ++ rest) = some (value 10 a + fraction b, rest) := by
  have hstop : rest.takeWhile (isDigit 10) = [] ∧ rest.dropWhile (isDigit 10) = rest := by
    cases rest with
    | nil => exact ⟨rfl, rfl⟩
    | cons c rest =>
      have hc := (hrest c rfl).1
      exact ⟨List.takeWhile_cons_of_neg (by simp [hc]), List.dropWhile_cons_of_neg (by simp [hc])⟩
  rw [List.append_assoc]
  by_cases hstripped : stripZeros b = []
  · have hzero : fraction b = 0 := by
      rw [← fraction_stripZeros, hstripped]
      simp [fraction, value]
    have htake : (a ++ rest).takeWhile (isDigit 10) = a := by
      rw [List.takeWhile_append_of_pos ha, hstop.1, List.append_nil]
    have hdrop : (a ++ rest).dropWhile (isDigit 10) = rest := by
      rw [List.dropWhile_append_of_pos ha, hstop.2]
    rw [behindPoint, if_pos hstripped, List.nil_append, hzero, add_zero]
    unfold mantissa
    rw [htake, hdrop]
    cases rest with
    | nil => simp [hne]
    | cons c rest =>
      have hc := (hrest c rfl).2
      simp only
      split
      next heq => exact absurd (List.cons.inj heq).1 hc
      · simp [hne]
  · have hdigits : ∀ c ∈ stripZeros b, isDigit 10 c = true := fun c hc => hb c (mem_stripZeros hc)
    have hpoint : isDigit 10 46 = false := by decide
    have htake : (a ++ 46 :: (stripZeros b ++ rest)).takeWhile (isDigit 10) = a := by
      rw [List.takeWhile_append_of_pos ha, List.takeWhile_cons_of_neg (by simp [hpoint]), List.append_nil]
    have hdrop : (a ++ 46 :: (stripZeros b ++ rest)).dropWhile (isDigit 10) = 46 :: (stripZeros b ++ rest) := by
      rw [List.dropWhile_append_of_pos ha, List.dropWhile_cons_of_neg (by simp [hpoint])]
    have hbehind : (stripZeros b ++ rest).takeWhile (isDigit 10) = stripZeros b := by
      rw [List.takeWhile_append_of_pos hdigits, hstop.1, List.append_nil]
    have hleft : (stripZeros b ++ rest).dropWhile (isDigit 10) = rest := by
      rw [List.dropWhile_append_of_pos hdigits, hstop.2]
    have hvalue : (value 10 (a ++ stripZeros b) : ℚ) / 10 ^ (stripZeros b).length = value 10 a + fraction b := by
      rw [← fraction_stripZeros, fraction, value_append]
      push_cast
      rw [add_div, mul_div_cancel_right₀ _ (by positivity)]
    rw [behindPoint, if_neg hstripped, List.cons_append]
    unfold mantissa
    simp only [htake, hdrop, hbehind, hleft, hne, false_and, if_false]
    rw [← hvalue]
    norm_num

theorem exponent_exponentText (e : ℤ) : exponent 101 69 (exponentText e) = e := by
  have hdigits : ∀ c ∈ padded 2 e.natAbs, isDigit 10 c = true := fun c hc => isDigit_of_mem_padded hc
  have hvalue : value 10 (padded 2 e.natAbs) = e.natAbs := by
    rw [padded, value_append, value_zeros, value_ofNat, Nat.zero_mul, Nat.zero_add]
  unfold exponentText
  by_cases he : e < 0
  · simp only [exponent, if_pos he, true_or, if_true, sign, List.takeWhile_eq_self_iff.mpr hdigits, hvalue]
    omega
  · simp only [exponent, if_neg he, true_or, if_true, sign, List.takeWhile_eq_self_iff.mpr hdigits, hvalue]
    simp only [Bool.false_eq_true, if_false]
    omega

/-- The digits of a number, cut where a point may stand. -/
theorem value_split (h : a ++ b = s) : (value 10 a : ℚ) + fraction b = value 10 s / 10 ^ b.length := by
  rw [← h, value_append, fraction]
  push_cast
  rw [add_div, mul_div_cancel_right₀ _ (by positivity)]

theorem ofNat_length (hlow : 10 ^ k ≤ m) (hhigh : m < 10 ^ (k + 1)) : (ofNat m).length = k + 1 := by
  have hmost := ofNat_length_le (Nat.succ_pos k) hhigh
  by_contra hne
  have hshort : (ofNat m).length ≤ k := by omega
  rw [ofNat, List.length_map] at hshort
  cases k with
  | zero =>
    have hnil : Nat.toDigits 10 m = [] := List.eq_nil_of_length_eq_zero (Nat.le_zero.mp hshort)
    exact Nat.toDigits_ne_nil hnil
  | succ k => exact absurd ((Nat.length_toDigits_le_iff (by decide) (Nat.succ_pos k)).mp hshort) (by omega)

theorem magnitude_behindPoint (ha : ∀ c ∈ a, isDigit 10 c = true) (hne : a ≠ []) (hb : ∀ c ∈ b, isDigit 10 c = true)
    (hrest : rest = [] ∨ rest = exponentText e) : magnitude (a ++ behindPoint b ++ rest) =
      some ((value 10 a + fraction b) * 10 ^ exponent 101 69 rest) := by
  have hmarks : ∀ c ∈ rest, isDigit 10 c = true ∨ c = 101 ∨ c = 45 ∨ c = 43 := by
    obtain rfl | rfl := hrest
    · exact fun c hc => absurd hc List.not_mem_nil
    · intro c hc
      rw [exponentText, List.mem_cons, List.mem_cons] at hc
      obtain rfl | rfl | hc := hc
      · exact .inr (.inl rfl)
      · split_ifs
        · exact .inr (.inr (.inl rfl))
        · exact .inr (.inr (.inr rfl))
      · exact .inl (isDigit_of_mem_padded hc)
  rw [magnitude_of_decimal, mantissa_behindPoint ha hne hb]
  · rfl
  · obtain rfl | rfl := hrest
    · exact fun c hc => absurd hc (Option.not_mem_none c)
    · rintro c ⟨⟩
      decide
  · intro c hc
    have hmem : c ∈ a ++ behindPoint b ++ rest := List.mem_of_mem_tail (List.mem_of_mem_head? hc)
    have hkind : isDigit 10 c = true ∨ c = 46 ∨ c = 101 ∨ c = 45 ∨ c = 43 := by
      obtain h | h := List.mem_append.mp hmem
      · obtain h | h := List.mem_append.mp h
        · exact .inl (ha c h)
        · obtain rfl | h := mem_behindPoint h
          · exact .inr (.inl rfl)
          · exact .inl (hb c h)
      · obtain h | h := hmarks c h
        · exact .inl h
        · exact .inr (.inr h)
    obtain hdigit | hmark := hkind
    · constructor
      all_goals
        rintro rfl
        exact absurd hdigit (by decide)
    · obtain rfl | rfl | rfl | rfl := hmark
      all_goals decide

theorem magnitude_positional (hlow : 10 ^ k ≤ m) (hhigh : m < 10 ^ (k + 1)) (e : ℤ) :
    magnitude (positional k m e) = some ((m : ℚ) * 10 ^ (e - k)) := by
  have hlength := ofNat_length hlow hhigh
  have hdigits : ∀ c ∈ ofNat m, isDigit 10 c = true := fun c hc => isDigit_of_mem_ofNat hc
  have htake (n : ℕ) : ∀ c ∈ (ofNat m).take n, isDigit 10 c = true := fun c hc => hdigits c (List.mem_of_mem_take hc)
  have hdrop (n : ℕ) : ∀ c ∈ (ofNat m).drop n, isDigit 10 c = true := fun c hc => hdigits c (List.mem_of_mem_drop hc)
  have hfront (n : ℕ) : (ofNat m).take (n + 1) ≠ [] := by simp [ofNat_ne_nil]
  have hscale (n : ℕ) : (m : ℚ) / 10 ^ n = m * 10 ^ (-(n : ℤ)) := by
    rw [zpow_neg, zpow_natCast, div_eq_mul_inv]
  unfold positional
  simp only
  split_ifs with hrange hneg
  · -- zeros before the first digit
    have hzeros : ∀ c ∈ List.replicate (-e - 1).toNat 48 ++ ofNat m, isDigit 10 c = true := by
      intro c hc
      obtain h | h := List.mem_append.mp hc
      · rw [List.eq_of_mem_replicate h]
        decide
      · exact hdigits c h
    have hzero : ∀ c ∈ ofNat 0, isDigit 10 c = true := fun c hc => isDigit_of_mem_ofNat hc
    have hread := magnitude_behindPoint (e := e) hzero ofNat_ne_nil hzeros (.inl rfl)
    rw [List.append_nil] at hread
    rw [hread, value_ofNat, fraction, value_append, value_zeros, value_ofNat, List.length_append, List.length_replicate,
      hlength, Nat.zero_mul, Nat.zero_add, hscale, Nat.cast_zero, zero_add]
    have hexponent : -(((-e - 1).toNat + (k + 1) : ℕ) : ℤ) = e - k := by omega
    rw [hexponent]
    simp [exponent]
  · have hread := magnitude_behindPoint (e := e) (htake (e.toNat + 1)) (hfront _) (hdrop (e.toNat + 1)) (.inl rfl)
    rw [List.append_nil] at hread
    rw [hread, value_split (List.take_append_drop _ _), value_ofNat, List.length_drop, hlength, hscale]
    have hexponent : -((k + 1 - (e.toNat + 1) : ℕ) : ℤ) = e - k := by omega
    rw [hexponent]
    simp [exponent]
  · rw [magnitude_behindPoint (htake 1) (hfront 0) (hdrop 1) (.inr rfl), exponent_exponentText,
      value_split (List.take_append_drop _ _), value_ofNat, List.length_drop, hlength, hscale, mul_assoc,
      ← zpow_add₀ (by norm_num)]
    have hexponent : -((k + 1 - 1 : ℕ) : ℤ) + e = e - k := by omega
    rw [hexponent]

theorem positional_front (k m : ℕ) (e : ℤ) : ∃ front rest, (∀ c ∈ front, isDigit 10 c = true) ∧ front ≠ [] ∧
    positional k m e = front ++ rest := by
  have hdigits (n m : ℕ) : ∀ c ∈ (ofNat m).take n, isDigit 10 c = true :=
    fun c hc => isDigit_of_mem_ofNat (List.mem_of_mem_take hc)
  have hfront (n : ℕ) : (ofNat m).take (n + 1) ≠ [] := by simp [ofNat_ne_nil]
  unfold positional
  simp only
  split_ifs
  · exact ⟨ofNat 0, _, fun c hc => isDigit_of_mem_ofNat hc, ofNat_ne_nil, rfl⟩
  · exact ⟨_, _, hdigits _ m, hfront _, rfl⟩
  · exact ⟨_, _, hdigits _ m, hfront 0, List.append_assoc _ _ _⟩

theorem mem_positional {c : UInt8} (h : c ∈ positional k m e) : isDigit 10 c = true ∨ c ∈ [43, 45, 46, 101] := by
  have hdigit {n : ℕ} (hc : c ∈ ofNat n) : isDigit 10 c = true ∨ c ∈ [43, 45, 46, 101] := .inl (isDigit_of_mem_ofNat hc)
  have hpoint {s : List UInt8} (hc : c ∈ behindPoint s) (hs : c ∈ s → isDigit 10 c = true) :
      isDigit 10 c = true ∨ c ∈ [43, 45, 46, 101] := by
    obtain rfl | hc := mem_behindPoint hc
    · exact .inr (by decide)
    · exact .inl (hs hc)
  unfold positional at h
  simp only at h
  split_ifs at h
  · obtain h | h := List.mem_append.mp h
    · exact hdigit h
    · apply hpoint h
      intro hc
      obtain hc | hc := List.mem_append.mp hc
      · rw [List.eq_of_mem_replicate hc]
        decide
      · exact isDigit_of_mem_ofNat hc
  · obtain h | h := List.mem_append.mp h
    · exact hdigit (List.mem_of_mem_take h)
    · exact hpoint h fun hc => isDigit_of_mem_ofNat (List.mem_of_mem_drop hc)
  · obtain h | h := List.mem_append.mp h
    · obtain h | h := List.mem_append.mp h
      · exact hdigit (List.mem_of_mem_take h)
      · exact hpoint h fun hc => isDigit_of_mem_ofNat (List.mem_of_mem_drop hc)
    · rw [exponentText, List.mem_cons, List.mem_cons] at h
      obtain rfl | rfl | h := h
      · exact .inr (by decide)
      · right
        split_ifs
        all_goals decide
      · exact .inl (isDigit_of_mem_padded h)

theorem mem_general {x : ℚ} {c : UInt8} (h : c ∈ general k x) : isDigit 10 c = true ∨ c ∈ [43, 45, 46, 101] := by
  unfold general at h
  split_ifs at h
  · exact .inl (isDigit_of_mem_ofNat h)
  · obtain h | h := List.mem_append.mp h
    · rw [List.mem_singleton.mp h]
      exact .inr (by decide)
    · exact mem_positional h
  · exact mem_positional h

end Text

section Nearest

variable {k : ℕ} {x d : ℚ}

/-- What a number between two powers of ten is rounded to, before a carry moves the exponent. -/
def nearest (k : ℕ) (x : ℚ) : ℤ := roundHalfEven (x * 10 ^ (k - Int.log 10 x))

theorem scaled_bounds (k : ℕ) (hx : 0 < x) :
    (10 : ℚ) ^ k ≤ x * 10 ^ (k - Int.log 10 x) ∧ x * 10 ^ (k - Int.log 10 x) < 10 ^ (k + 1) := by
  have hten : (0 : ℚ) < 10 := by norm_num
  have hscale : (0 : ℚ) < 10 ^ (k - Int.log 10 x) := zpow_pos hten _
  have hlow : (10 : ℚ) ^ Int.log 10 x ≤ x := Int.zpow_log_le_self (by norm_num) hx
  have hhigh : x < (10 : ℚ) ^ (Int.log 10 x + 1) := Int.lt_zpow_succ_log_self (by norm_num) x
  constructor
  · calc (10 : ℚ) ^ k = 10 ^ Int.log 10 x * 10 ^ (k - Int.log 10 x) := by
          rw [← zpow_add₀ hten.ne', add_sub_cancel, zpow_natCast]
      _ ≤ x * 10 ^ (k - Int.log 10 x) := by gcongr
  · calc x * 10 ^ (k - Int.log 10 x) < 10 ^ (Int.log 10 x + 1) * 10 ^ (k - Int.log 10 x) := by gcongr
      _ = 10 ^ (k + 1) := by
          rw [← zpow_add₀ hten.ne', ← zpow_natCast]
          congr 1
          push_cast
          ring

theorem nearest_bounds (k : ℕ) (hx : 0 < x) : 10 ^ k ≤ nearest k x ∧ nearest k x ≤ 10 ^ (k + 1) := by
  obtain ⟨hlow, hhigh⟩ := scaled_bounds k hx
  obtain ⟨herrorLow, herrorHigh⟩ := abs_le.mp (roundHalfEven_error (x * 10 ^ (k - Int.log 10 x)))
  have hbelow : ((10 ^ k : ℤ) : ℚ) < nearest k x + 1 := by
    unfold nearest
    push_cast
    linarith
  have habove : (nearest k x : ℚ) < ((10 ^ (k + 1) : ℤ) : ℚ) + 1 := by
    unfold nearest
    push_cast
    linarith
  constructor
  · exact Int.lt_add_one_iff.mp (by exact_mod_cast hbelow)
  · exact Int.lt_add_one_iff.mp (by exact_mod_cast habove)

theorem scientific_bounds (k : ℕ) (hx : 0 < x) :
    10 ^ k ≤ (scientific k x).1 ∧ (scientific k x).1 < 10 ^ (k + 1) := by
  obtain ⟨hlow, hhigh⟩ := nearest_bounds k hx
  have hnat : ((nearest k x).toNat : ℤ) = nearest k x :=
    Int.toNat_of_nonneg (le_trans (by positivity) hlow)
  have hsplit : scientific k x =
      if (nearest k x).toNat = 10 ^ (k + 1) then (10 ^ k, Int.log 10 x + 1)
      else ((nearest k x).toNat, Int.log 10 x) := rfl
  rw [hsplit]
  split_ifs with hcarry
  · exact ⟨le_rfl, Nat.pow_lt_pow_right (by norm_num) (Nat.lt_succ_self k)⟩
  · rw [← hnat] at hlow hhigh
    have hlow' : 10 ^ k ≤ (nearest k x).toNat := by exact_mod_cast hlow
    have hhigh' : (nearest k x).toNat ≤ 10 ^ (k + 1) := by exact_mod_cast hhigh
    exact ⟨hlow', lt_of_le_of_ne hhigh' hcarry⟩

theorem printed_eq (k : ℕ) (hx : 0 < x) : printed k x = nearest k x * 10 ^ (Int.log 10 x - k) := by
  have hlow := (nearest_bounds k hx).1
  have hnat : ((nearest k x).toNat : ℤ) = nearest k x :=
    Int.toNat_of_nonneg (le_trans (by positivity) hlow)
  have hcast : ((nearest k x).toNat : ℚ) = nearest k x := by exact_mod_cast congrArg (Int.cast : ℤ → ℚ) hnat
  have hsplit : scientific k x =
      if (nearest k x).toNat = 10 ^ (k + 1) then (10 ^ k, Int.log 10 x + 1)
      else ((nearest k x).toNat, Int.log 10 x) := rfl
  unfold printed
  rw [hsplit]
  split_ifs with hcarry
  · rw [← hcast, hcarry, add_sub_right_comm, zpow_add_one₀ (by norm_num)]
    push_cast
    ring
  · rw [hcast]

theorem log_le_scientific (k : ℕ) (x : ℚ) : Int.log 10 x ≤ (scientific k x).2 := by
  unfold scientific
  simp only
  split_ifs
  · exact Int.le_add_one le_rfl
  · exact le_rfl

theorem printed_pos (k : ℕ) (hx : 0 < x) : 0 < printed k x := by
  have hlow := (nearest_bounds k hx).1
  have hpos : (0 : ℤ) < nearest k x := lt_of_lt_of_le (by positivity) hlow
  rw [printed_eq k hx]
  exact mul_pos (Int.cast_pos.mpr hpos) (zpow_pos (by norm_num) _)

theorem printed_error (k : ℕ) (hx : 0 < x) : |printed k x - x| ≤ 10 ^ (Int.log 10 x - k) / 2 := by
  have hscale : (0 : ℚ) < 10 ^ (Int.log 10 x - k) := zpow_pos (by norm_num) _
  have hback : x * 10 ^ (k - Int.log 10 x) * 10 ^ (Int.log 10 x - k) = x := by
    rw [mul_assoc, ← zpow_add₀ (by norm_num), sub_add_sub_cancel, sub_self, zpow_zero, mul_one]
  calc |printed k x - x| = |(nearest k x - x * 10 ^ (k - Int.log 10 x)) * 10 ^ (Int.log 10 x - k)| := by
        rw [printed_eq k hx, sub_mul, hback]
    _ = |(nearest k x : ℚ) - x * 10 ^ (k - Int.log 10 x)| * 10 ^ (Int.log 10 x - k) := by
        rw [abs_mul, abs_of_pos hscale]
    _ ≤ 1 / 2 * 10 ^ (Int.log 10 x - k) := by
        gcongr
        exact roundHalfEven_error _
    _ = 10 ^ (Int.log 10 x - k) / 2 := by ring

theorem printed_relative (k : ℕ) (hx : 0 < x) : |printed k x - x| ≤ x / (2 * 10 ^ k) := by
  have hlow : (10 : ℚ) ^ Int.log 10 x ≤ x := Int.zpow_log_le_self (by norm_num) hx
  calc |printed k x - x| ≤ 10 ^ (Int.log 10 x - k) / 2 := printed_error k hx
    _ = 10 ^ Int.log 10 x / (2 * 10 ^ k) := by
        rw [zpow_sub₀ (by norm_num), zpow_natCast, div_div, mul_comm]
    _ ≤ x / (2 * 10 ^ k) := by gcongr

/-- A number near one that needs no more digits is printed as that one. -/
theorem printed_of_near (hx : 0 < x) {c : ℤ} (hd : d = c * 10 ^ (Int.log 10 x - k))
    (hnear : |x - d| < 10 ^ (Int.log 10 x - k) / 2) : printed k x = d := by
  have hscale : (0 : ℚ) < 10 ^ (Int.log 10 x - k) := zpow_pos (by norm_num) _
  have herror := printed_error k hx
  have hsum : |printed k x - d| < 10 ^ (Int.log 10 x - k) := by
    have htriangle := abs_sub_le (printed k x) x d
    linarith
  rw [printed_eq k hx, hd, ← sub_mul, abs_mul, abs_of_pos hscale, mul_lt_iff_lt_one_left hscale] at hsum
  have hsame : nearest k x = c := by
    have hone : |nearest k x - c| < 1 := by exact_mod_cast hsum
    have := Int.abs_lt_one_iff.mp hone
    omega
  rw [printed_eq k hx, hd, hsame]

/-- Fifteen digits and fewer survive a `double`. -/
theorem printed_of_double {m : ℕ} {j : ℤ} (hm : m < 10 ^ (k + 1)) (hk : (10 : ℚ) ^ (k + 1) ≤ 2 ^ 50) (hx : 0 < x)
    (hnear : |x - m * 10 ^ j| ≤ m * 10 ^ j / 2 ^ 53) : printed k x = m * 10 ^ j := by
  have hten : (0 : ℚ) < 10 := by norm_num
  have hscale : (0 : ℚ) < 10 ^ j := zpow_pos hten _
  have hunit : (0 : ℚ) < 10 ^ (Int.log 10 x - k) := zpow_pos hten _
  have hlow : (10 : ℚ) ^ Int.log 10 x ≤ x := Int.zpow_log_le_self (by norm_num) hx
  have hhigh : x < (10 : ℚ) ^ (k + 1) * 10 ^ (Int.log 10 x - k) := by
    have hexponent : ((k + 1 : ℕ) : ℤ) + (Int.log 10 x - k) = Int.log 10 x + 1 := by omega
    rw [← zpow_natCast, ← zpow_add₀ hten.ne', hexponent]
    exact Int.lt_zpow_succ_log_self (by norm_num) x
  have hmost : (m : ℚ) * 10 ^ j ≤ 10 ^ (k + 1) * 10 ^ j - 10 ^ j := by
    have hsucc : (m : ℚ) + 1 ≤ 10 ^ (k + 1) := by exact_mod_cast hm
    have hscaled : ((m : ℚ) + 1) * 10 ^ j ≤ 10 ^ (k + 1) * 10 ^ j := by gcongr
    linarith
  have hwhole : (10 : ℚ) ^ (k + 1) * 10 ^ j ≤ 2 ^ 50 * 10 ^ j := by gcongr
  have hspan : (10 : ℚ) ^ (k + 1) * 10 ^ (Int.log 10 x - k) ≤ 2 ^ 50 * 10 ^ (Int.log 10 x - k) := by gcongr
  obtain ⟨hbelow, habove⟩ := abs_le.mp hnear
  have hexponent : Int.log 10 x - k ≤ j := by
    have hless : (10 : ℚ) ^ Int.log 10 x < 10 ^ ((k + 1 : ℕ) + j) := by
      rw [zpow_add₀ hten.ne', zpow_natCast]
      linarith
    have hlt := (zpow_lt_zpow_iff_right₀ (by norm_num : (1 : ℚ) < 10)).mp hless
    omega
  obtain ⟨i, hi⟩ := Int.le.dest hexponent
  apply printed_of_near hx (c := m * 10 ^ i)
  · rw [← hi, zpow_add₀ hten.ne', zpow_natCast]
    push_cast
    ring
  · apply lt_of_le_of_lt hnear
    linarith

theorem stod_general (P : Platform) (k : ℕ) (hx : x ≠ 0)
    (hrange : InRange (printed k |x|)) :
    stod P (general k x) = some (P.round (if x < 0 then -printed k |x| else printed k |x|)) := by
  obtain ⟨hlow, hhigh⟩ := scientific_bounds k (abs_pos.mpr hx)
  have hmagnitude := magnitude_positional hlow hhigh (scientific k |x|).2
  have hpos := printed_pos k (abs_pos.mpr hx)
  have hsign : sign ((general k x).dropWhile isSpace) =
      (decide (x < 0), positional k (scientific k |x|).1 (scientific k |x|).2) := by
    obtain ⟨front, rest, hdigits, hne, heq⟩ := positional_front k (scientific k |x|).1 (scientific k |x|).2
    have hsigned := sign_signed hdigits hne (decide (x < 0)) rest
    simp only [decide_eq_true_eq] at hsigned
    rw [general, if_neg hx, heq, ← List.append_assoc]
    exact hsigned
  unfold printed at hpos hrange
  unfold stod
  rw [hsign]
  simp only [hmagnitude]
  rw [if_neg hpos.ne', if_pos hrange]
  simp [printed]

theorem stod_zero (P : Platform) : stod P (ofNat 0) = some 0 := by
  have hdigits : ∀ c ∈ ofNat 0, isDigit 10 c = true := fun c hc => isDigit_of_mem_ofNat hc
  have hread := magnitude_behindPoint (e := 0) hdigits ofNat_ne_nil (List.forall_mem_nil _) (.inl rfl)
  have htext : ofNat 0 ++ behindPoint [] ++ [] = ofNat 0 := rfl
  have hnone : fraction [] = 0 := by simp [fraction, value]
  rw [htext, value_ofNat, hnone, Nat.cast_zero, zero_add, zero_mul] at hread
  have hsign : sign ((ofNat 0).dropWhile isSpace) = (false, ofNat 0) := rfl
  unfold stod
  rw [hsign]
  simp [hread]

end Nearest

end Decimal

end Klett.Lib
