import Klett.Lib.Decimal
import Mathlib.Algebra.Order.Field.Rat

namespace Klett.Lib

/-- A `double` as a number. Every comparison with `nan` is false. -/
inductive Double where
  | nan
  | negInf
  | finite (x : ℚ)
  | posInf
deriving DecidableEq

namespace Double

def lt : Double → Double → Bool
  | .finite x, .finite y => x < y
  | .negInf, .finite _ | .negInf, .posInf | .finite _, .posInf => true
  | _, _ => false

instance : LT Double := ⟨fun x y => lt x y = true⟩

instance : DecidableLT Double := fun x y => inferInstanceAs (Decidable (lt x y = true))

instance : Zero Double := ⟨.finite 0⟩

instance : One Double := ⟨.finite 1⟩

instance : Neg Double where
  neg
    | .nan => .nan
    | .negInf => .posInf
    | .finite x => .finite (-x)
    | .posInf => .negInf

instance : LE Double := ⟨fun x y => x < y ∨ x = y ∧ x ≠ .nan⟩

instance : DecidableLE Double := fun x y => inferInstanceAs (Decidable (x < y ∨ x = y ∧ x ≠ .nan))

instance : OfScientific Double where
  ofScientific m s e := .finite (OfScientific.ofScientific m s e)

/-- The sum, without rounding. -/
instance : Add Double where
  add
    | .nan, _ | _, .nan | .posInf, .negInf | .negInf, .posInf => .nan
    | .posInf, _ | _, .posInf => .posInf
    | .negInf, _ | _, .negInf => .negInf
    | .finite x, .finite y => .finite (x + y)

/-- An infinity with the sign of the product. -/
def signedInf (x y : Double) : Double :=
  if x = 0 ∨ y = 0 then .nan else if x < 0 ↔ y < 0 then .posInf else .negInf

/-- The product, without rounding. -/
instance : Mul Double where
  mul
    | .nan, _ | _, .nan => .nan
    | .finite x, .finite y => .finite (x * y)
    | x, y => signedInf x y

def exponentBits (bits : ℕ) : ℕ := bits / 2 ^ 52 % 2 ^ 11

def fractionBits (bits : ℕ) : ℕ := bits % 2 ^ 52

def negative (bits : ℕ) : Bool := bits / 2 ^ 63 % 2 = 1

def magnitude (bits : ℕ) : ℚ :=
  if exponentBits bits = 0 then fractionBits bits * 2 ^ (-1074 : ℤ)
  else (2 ^ 52 + fractionBits bits) * 2 ^ (exponentBits bits - 1075 : ℤ)

def ofBits (bits : ℕ) : Double :=
  if exponentBits bits = 2047 then
    if fractionBits bits ≠ 0 then .nan else if negative bits then .negInf else .posInf
  else .finite (if negative bits then -magnitude bits else magnitude bits)

def NanBits (bits : ℕ) : Prop := exponentBits bits = 2047 ∧ fractionBits bits ≠ 0

instance (bits : ℕ) : Decidable (NanBits bits) := inferInstanceAs (Decidable (_ ∧ _))

theorem ofBits_eq_nan_iff (bits : ℕ) : ofBits bits = .nan ↔ NanBits bits := by
  rw [ofBits, NanBits]
  split_ifs <;> simp_all

theorem finite_lt_finite {x y : ℚ} : finite x < finite y ↔ x < y := by
  change decide (x < y) = true ↔ x < y
  exact decide_eq_true_iff

theorem not_nan_lt (x : Double) : ¬ nan < x := Bool.false_ne_true

theorem not_lt_nan (x : Double) : ¬ x < nan := by
  cases x <;> exact Bool.false_ne_true

theorem ne_nan_of_lt {x y : Double} (h : x < y) : x ≠ nan ∧ y ≠ nan :=
  ⟨fun hx => not_nan_lt y (hx ▸ h), fun hy => not_lt_nan x (hy ▸ h)⟩

theorem ne_nan_of_le {x y : Double} (h : x ≤ y) : x ≠ nan ∧ y ≠ nan := by
  obtain hlt | ⟨rfl, hx⟩ := h
  · exact ne_nan_of_lt hlt
  · exact ⟨hx, hx⟩

/-- Away from NaN the order is total. -/
theorem not_lt_iff {x y : Double} (hx : x ≠ nan) (hy : y ≠ nan) : ¬ x < y ↔ y ≤ x := by
  change ¬ lt x y = true ↔ lt y x = true ∨ y = x ∧ y ≠ nan
  cases x <;> cases y <;> simp_all [lt, le_iff_lt_or_eq]

theorem not_le_iff {x y : Double} (hx : x ≠ nan) (hy : y ≠ nan) : ¬ x ≤ y ↔ y < x := by
  rw [← not_lt_iff hy hx, not_not]

def Inside (lo hi : ℚ) (d : Double) : Prop := ∃ x, d = finite x ∧ lo ≤ x ∧ x ≤ hi

end Double

section Clamp

variable {α : Type*} [LT α] [DecidableLT α]

def clamp (val lo hi : α) : α := if val < lo then lo else if hi < val then hi else val

theorem clamp_eq_max_min {K : Type*} [LinearOrder K] {lo hi : K} (h : lo ≤ hi) (val : K) :
    clamp val lo hi = max lo (min hi val) := by
  rw [clamp]
  split_ifs with hlo hhi
  · rw [min_eq_right (hlo.le.trans h), max_eq_left hlo.le]
  · rw [min_eq_left hhi.le, max_eq_right h]
  · rw [min_eq_right (not_lt.mp hhi), max_eq_right (not_lt.mp hlo)]

theorem le_clamp {K : Type*} [LinearOrder K] {lo hi : K} (h : lo ≤ hi) (val : K) : lo ≤ clamp val lo hi := by
  rw [clamp_eq_max_min h]
  exact le_max_left _ _

theorem clamp_le {K : Type*} [LinearOrder K] {lo hi : K} (h : lo ≤ hi) (val : K) : clamp val lo hi ≤ hi := by
  rw [clamp_eq_max_min h]
  exact max_le h (min_le_left _ _)

theorem Double.inside_clamp_iff {lo hi : ℚ} (h : lo ≤ hi) (d : Double) :
    Double.Inside lo hi (clamp d (.finite lo) (.finite hi)) ↔ d ≠ .nan := by
  cases d with
  | nan =>
    rw [clamp, if_neg (Double.not_nan_lt _), if_neg (Double.not_lt_nan _)]
    simp [Double.Inside]
  | negInf =>
    rw [clamp, if_pos (show Double.negInf < .finite lo from rfl)]
    simp [Double.Inside, h]
  | posInf =>
    rw [clamp, if_neg (show ¬ Double.posInf < .finite lo from Bool.false_ne_true),
      if_pos (show Double.finite hi < .posInf from rfl)]
    simp [Double.Inside, h]
  | finite x =>
    have hclamp : clamp (Double.finite x) (.finite lo) (.finite hi) = .finite (clamp x lo hi) := by
      simp only [clamp, Double.finite_lt_finite]
      split_ifs <;> rfl
    rw [hclamp]
    simp [Double.Inside, le_clamp h, clamp_le h]

end Clamp

end Klett.Lib

namespace Klett.Lib

/-- A `double` of the platform: its compiler rounds the literals. -/
def Binary64 (_ : Platform) : Type := Double

namespace Binary64

variable {P : Platform}

instance : DecidableEq (Binary64 P) := inferInstanceAs (DecidableEq Double)
instance : LT (Binary64 P) := inferInstanceAs (LT Double)
instance : LE (Binary64 P) := inferInstanceAs (LE Double)
instance : DecidableLT (Binary64 P) := inferInstanceAs (DecidableLT Double)
instance : DecidableLE (Binary64 P) := inferInstanceAs (DecidableLE Double)

instance : OfScientific (Binary64 P) where
  ofScientific m s e := Double.finite (P.round (OfScientific.ofScientific m s e))

def nan : Binary64 P := Double.nan

def lower (b : UInt8) : UInt8 := if 65 ≤ b ∧ b ≤ 90 then b + 32 else b

/-- `std::stod`, which also reads the words for infinity and NaN, in letters of either case. -/
def stod (P : Platform) (s : List UInt8) : Option (Binary64 P) :=
  let (negative, word) := Decimal.sign (s.dropWhile Decimal.isSpace)
  if [105, 110, 102].isPrefixOf (word.map lower) then some (if negative then Double.negInf else Double.posInf)
  else if [110, 97, 110].isPrefixOf (word.map lower) then some nan
  else (Decimal.stod P s).map Double.finite

section Words

variable {b : UInt8} {s word : List UInt8} {x : ℚ}

theorem eq_sub_of_lower (h : lower b = 105 ∨ lower b = 110) : b = 73 ∨ b = 78 ∨ b = 105 ∨ b = 110 := by
  unfold lower at h
  split_ifs at h
  · obtain h | h := h
    · have hb := congrArg (· - 32) h
      exact .inl (by simpa using hb)
    · have hb := congrArg (· - 32) h
      exact .inr (.inl (by simpa using hb))
  · exact .inr (.inr h)

theorem letter_of_prefix {letters : List UInt8} {c : UInt8} (hc : c = 105 ∨ c = 110)
    (h : (c :: letters).isPrefixOf (word.map lower) = true) :
    ∃ b t, word = b :: t ∧ Decimal.isDigit 10 b = false ∧ b ≠ 46 := by
  cases word with
  | nil => simp at h
  | cons b t =>
    rw [List.map_cons, List.isPrefixOf_cons_cons, Bool.and_eq_true, beq_iff_eq] at h
    refine ⟨b, t, rfl, ?_⟩
    obtain rfl | rfl | rfl | rfl := eq_sub_of_lower (h.1 ▸ hc)
    all_goals exact ⟨by decide, by decide⟩

/-- A text that reads as a number reads as the same finite double. -/
theorem stod_of_number (h : Decimal.stod P s = some x) : stod P s = some (Double.finite x) := by
  have hword {c : UInt8} {letters : List UInt8} (hc : c = 105 ∨ c = 110) :
      ¬(c :: letters).isPrefixOf ((Decimal.sign (s.dropWhile Decimal.isSpace)).2.map lower) = true := by
    intro hprefix
    obtain ⟨b, t, hs, hdigit, hpoint⟩ := letter_of_prefix hc hprefix
    rw [Decimal.stod_of_letter P hdigit hpoint hs] at h
    cases h
  unfold stod
  simp only
  rw [if_neg (hword (.inl rfl)), if_neg (hword (.inr rfl)), h]
  rfl

end Words

variable {x : Binary64 P} {m e : ℕ} {s : Bool}

theorem literal_ne_nan : (OfScientific.ofScientific m s e : Binary64 P) ≠ nan := by
  change Double.finite _ ≠ Double.nan
  simp

theorem ne_nan_of_literal_lt (h : (OfScientific.ofScientific m s e : Binary64 P) < x) : x ≠ nan :=
  (Double.ne_nan_of_lt h).2

theorem ne_nan_of_literal_le (h : (OfScientific.ofScientific m s e : Binary64 P) ≤ x) : x ≠ nan :=
  (Double.ne_nan_of_le h).2

theorem not_lt_literal (h : x ≠ nan) :
    ¬ x < (OfScientific.ofScientific m s e : Binary64 P) ↔ OfScientific.ofScientific m s e ≤ x :=
  Double.not_lt_iff h literal_ne_nan

theorem not_le_literal (h : x ≠ nan) :
    ¬ x ≤ (OfScientific.ofScientific m s e : Binary64 P) ↔ OfScientific.ofScientific m s e < x :=
  Double.not_le_iff h literal_ne_nan

theorem not_gt_literal (h : x ≠ nan) :
    ¬ x > (OfScientific.ofScientific m s e : Binary64 P) ↔ x ≤ OfScientific.ofScientific m s e :=
  Double.not_lt_iff literal_ne_nan h

theorem not_ge_literal (h : x ≠ nan) :
    ¬ x ≥ (OfScientific.ofScientific m s e : Binary64 P) ↔ x < OfScientific.ofScientific m s e :=
  Double.not_le_iff literal_ne_nan h

end Binary64

end Klett.Lib
