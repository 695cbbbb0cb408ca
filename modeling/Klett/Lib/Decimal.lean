import Klett.Lib.Platform
import Mathlib.Data.List.TakeWhile
import Mathlib.Tactic.FieldSimp
import Mathlib.Tactic.Ring

/-!
Numbers in text as the C++ library writes and reads them, on the bytes of ASCII strings. A parser
that throws returns `none`.
-/

namespace Klett.Lib.Decimal

def ofNat (n : ℕ) : List UInt8 := (Nat.toDigits 10 n).map fun c => c.val.toUInt8

def ofInt (z : ℤ) : List UInt8 := if z < 0 then 45 :: ofNat z.natAbs else ofNat z.natAbs

def isSpace (b : UInt8) : Bool := b = 32 || (9 ≤ b && b ≤ 13)

def digitValue (b : UInt8) : ℕ :=
  if 48 ≤ b ∧ b ≤ 57 then b.toNat - 48
  else if 65 ≤ b ∧ b ≤ 90 then b.toNat - 55
  else if 97 ≤ b ∧ b ≤ 122 then b.toNat - 87
  else 36

def isDigit (base : ℕ) (b : UInt8) : Bool := digitValue b < base

def value (base : ℕ) (digits : List UInt8) : ℕ := digits.foldl (fun n b => base * n + digitValue b) 0

def sign : List UInt8 → Bool × List UInt8
  | 45 :: s => (true, s)
  | 43 :: s => (false, s)
  | s => (false, s)

def integer (s : List UInt8) : Option (Bool × ℕ) :=
  let (negative, s) := sign (s.dropWhile isSpace)
  match s.takeWhile (isDigit 10) with
  | [] => none
  | digits => some (negative, value 10 digits)

/-- `std::stoull`. A minus sign negates modulo 2⁶⁴. -/
def stoull (s : List UInt8) : Option ℕ :=
  match integer s with
  | none => none
  | some (negative, n) =>
    if n < 2 ^ 64 then some (if negative then (2 ^ 64 - n) % 2 ^ 64 else n) else none

def stoll (s : List UInt8) : Option ℤ :=
  match integer s with
  | none => none
  | some (negative, n) =>
    let z : ℤ := if negative then -n else n
    if -2 ^ 63 ≤ z ∧ z < 2 ^ 63 then some z else none

def stoi (s : List UInt8) : Option ℤ :=
  match integer s with
  | none => none
  | some (negative, n) =>
    let z : ℤ := if negative then -n else n
    if -2 ^ 31 ≤ z ∧ z < 2 ^ 31 then some z else none

def mantissa (base : ℕ) (s : List UInt8) : Option (ℚ × List UInt8) :=
  let whole := s.takeWhile (isDigit base)
  let rest := s.dropWhile (isDigit base)
  let fraction := match rest with
    | 46 :: t => t.takeWhile (isDigit base)
    | _ => []
  let rest := match rest with
    | 46 :: t => t.dropWhile (isDigit base)
    | _ => rest
  if whole = [] ∧ fraction = [] then none
  else some ((value base (whole ++ fraction) : ℚ) / base ^ fraction.length, rest)

def exponent (lower upper : UInt8) : List UInt8 → ℤ
  | marker :: s =>
    if marker = lower ∨ marker = upper then
      let (negative, s) := sign s
      let e : ℤ := value 10 (s.takeWhile (isDigit 10))
      if negative then -e else e
    else 0
  | [] => 0

/-- The magnitude that `strtod` reads: hexadecimal with a binary exponent, or decimal. -/
def magnitude : List UInt8 → Option ℚ
  | 48 :: x :: s =>
    match if x = 120 ∨ x = 88 then mantissa 16 s else none with
    | some (m, rest) => some (m * 2 ^ exponent 112 80 rest)
    | none => (mantissa 10 (48 :: x :: s)).map fun (m, rest) => m * 10 ^ exponent 101 69 rest
  | s => (mantissa 10 s).map fun (m, rest) => m * 10 ^ exponent 101 69 rest

/-- Where `strtod` reports no error of range: the magnitude does not round to infinity, and one below the least normal
number is exact or rounds up to that number. -/
def InRange (x : ℚ) : Prop :=
  x < 2 ^ (1024 : ℤ) - 2 ^ (970 : ℤ) ∧ (2 ^ (-1022 : ℤ) - 2 ^ (-1076 : ℤ) ≤ x ∨ (x * 2 ^ (1074 : ℤ)).den = 1)

instance : DecidablePred InRange := fun _ => inferInstanceAs (Decidable (_ ∧ _))

/-- `std::stod` on a text that is no word for infinity or NaN. -/
def stod (P : Platform) (s : List UInt8) : Option ℚ :=
  let (negative, s) := sign (s.dropWhile isSpace)
  match magnitude s with
  | none => none
  | some x =>
    if x = 0 then some 0
    else if InRange x then some (P.round (if negative then -x else x))
    else none

section RoundTrip

variable {c : Char} {n : ℕ}

theorem toNat_byte (h : c.isDigit = true) : c.val.toUInt8.toNat = c.toNat ∧ 48 ≤ c.toNat ∧ c.toNat ≤ 57 := by
  have hrange : 48 ≤ c.toNat ∧ c.toNat ≤ 57 := by
    simpa [Char.isDigit, UInt32.le_iff_toNat_le] using h
  refine ⟨?_, hrange⟩
  rw [UInt32.toNat_toUInt8]
  exact Nat.mod_eq_of_lt (lt_of_le_of_lt hrange.2 (by decide))

theorem digitValue_byte (h : c.isDigit = true) : digitValue c.val.toUInt8 = c.toNat - 48 := by
  obtain ⟨hbyte, hlow, hhigh⟩ := toNat_byte h
  unfold digitValue
  rw [if_pos, hbyte]
  simp only [UInt8.le_iff_toNat_le, hbyte]
  exact ⟨hlow, hhigh⟩

theorem isDigit_byte (h : c.isDigit = true) : isDigit 10 c.val.toUInt8 = true := by
  obtain ⟨-, -, hhigh⟩ := toNat_byte h
  simp only [isDigit, digitValue_byte h, decide_eq_true_eq]
  omega

theorem isDigit_of_mem_ofNat {b : UInt8} (h : b ∈ ofNat n) : isDigit 10 b = true := by
  obtain ⟨c, hc, rfl⟩ := List.mem_map.mp h
  exact isDigit_byte (Nat.isDigit_of_mem_toDigits (by decide) (by decide) hc)

theorem value_bytes {cs : List Char} (h : ∀ c ∈ cs, c.isDigit = true) (m : ℕ) :
    (cs.map fun c => c.val.toUInt8).foldl (fun n b => 10 * n + digitValue b) m = Nat.ofDigitChars 10 cs m := by
  induction cs generalizing m with
  | nil => simp
  | cons c cs ih =>
    rw [List.map_cons, List.foldl_cons, Nat.ofDigitChars_cons, ih fun c hc => h c (List.mem_cons_of_mem _ hc),
      digitValue_byte (h c List.mem_cons_self)]
    rfl

@[simp] theorem value_ofNat : value 10 (ofNat n) = n := by
  unfold value ofNat
  rw [value_bytes fun c hc => Nat.isDigit_of_mem_toDigits (by decide) (by decide) hc]
  exact Nat.ofDigitChars_ten_toDigits

theorem ofNat_injective : Function.Injective ofNat := fun m n h => by
  rw [← value_ofNat (n := m), h, value_ofNat]

theorem ofNat_ne_nil : ofNat n ≠ [] := by simp [ofNat, Nat.toDigits_ne_nil]

theorem toNat_of_isDigit {b : UInt8} (h : isDigit 10 b = true) : 48 ≤ b.toNat ∧ b.toNat ≤ 57 := by
  simp only [isDigit, digitValue, decide_eq_true_eq, UInt8.le_iff_toNat_le, UInt8.reduceToNat] at h
  split_ifs at h <;> omega

theorem isSpace_of_isDigit {b : UInt8} (h : isDigit 10 b = true) : isSpace b = false := by
  obtain ⟨hlow, -⟩ := toNat_of_isDigit h
  simp only [isSpace, Bool.or_eq_false_iff, Bool.and_eq_false_iff, decide_eq_false_iff_not,
    UInt8.le_iff_toNat_le, UInt8.reduceToNat, ← UInt8.toNat_inj]
  omega

theorem integer_of_digits {s : List UInt8} (hne : s ≠ []) (h : ∀ b ∈ s, isDigit 10 b = true) :
    integer s = some (false, value 10 s) := by
  obtain ⟨b, t, rfl⟩ := List.exists_cons_of_ne_nil hne
  have hdigit := h b List.mem_cons_self
  obtain ⟨hlow, -⟩ := toNat_of_isDigit hdigit
  have hsign : sign (b :: t) = (false, b :: t) := by
    unfold sign
    split
    next heq =>
      obtain ⟨rfl, -⟩ := List.cons.inj heq
      exact absurd hlow (by decide)
    next heq =>
      obtain ⟨rfl, -⟩ := List.cons.inj heq
      exact absurd hlow (by decide)
    · rfl
  have hall : (b :: t).takeWhile (isDigit 10) = b :: t := by
    rw [List.takeWhile_eq_self_iff]
    exact h
  unfold integer
  rw [List.dropWhile_cons_of_neg (by simp [isSpace_of_isDigit hdigit]), hsign]
  simp only [hall]

theorem stoull_ofNat (h : n < 2 ^ 64) : stoull (ofNat n) = some n := by
  unfold stoull
  rw [integer_of_digits ofNat_ne_nil fun b => isDigit_of_mem_ofNat, value_ofNat]
  exact if_pos h

theorem integer_ofInt (z : ℤ) : integer (ofInt z) = some (decide (z < 0), z.natAbs) := by
  have hdigits (n : ℕ) : integer (ofNat n) = some (false, n) := by
    rw [integer_of_digits ofNat_ne_nil fun b => isDigit_of_mem_ofNat, value_ofNat]
  unfold ofInt
  split_ifs with hz
  · have hall : (ofNat z.natAbs).takeWhile (isDigit 10) = ofNat z.natAbs :=
      List.takeWhile_eq_self_iff.mpr fun b => isDigit_of_mem_ofNat
    have hspace : (45 :: ofNat z.natAbs).dropWhile isSpace = 45 :: ofNat z.natAbs :=
      List.dropWhile_cons_of_neg (by decide)
    unfold integer
    rw [hspace]
    simp only [sign, hall, hz, decide_true]
    split
    · exact absurd ‹_› ofNat_ne_nil
    · rw [value_ofNat]
  · rw [hdigits, decide_eq_false hz]

theorem stoi_ofInt {z : ℤ} (hlow : -2 ^ 31 ≤ z) (hhigh : z < 2 ^ 31) : stoi (ofInt z) = some z := by
  have hz : (if decide (z < 0) = true then -(z.natAbs : ℤ) else z.natAbs) = z := by
    split_ifs with h
    · have hneg := of_decide_eq_true h
      omega
    · have hpos : ¬z < 0 := fun hneg => h (decide_eq_true hneg)
      omega
  unfold stoi
  rw [integer_ofInt]
  simp only [hz]
  exact if_pos ⟨hlow, hhigh⟩

theorem mem_ofInt {b : UInt8} {z : ℤ} (h : b ∈ ofInt z) : b = 45 ∨ isDigit 10 b = true := by
  unfold ofInt at h
  split_ifs at h
  · exact (List.mem_cons.mp h).imp_right isDigit_of_mem_ofNat
  · exact .inr (isDigit_of_mem_ofNat h)

end RoundTrip

end Klett.Lib.Decimal

/-!
Text that is a number from its first byte to its last. The parsers of the library stop at the first byte that does not
belong to the number and leave the rest unread.
-/

namespace Klett.Lib.Decimal

def wholeInteger (s : List UInt8) : Option ℤ :=
  let (negative, digits) := sign (s.dropWhile isSpace)
  if digits ≠ [] ∧ digits.all (isDigit 10) = true then
    some (if negative then -value 10 digits else value 10 digits)
  else none

/-- An exponent without digits does not belong to the number. -/
def unreadExponent (lower upper : UInt8) : List UInt8 → List UInt8
  | marker :: s =>
    let digits := (sign s).2
    if (marker = lower ∨ marker = upper) ∧ digits.takeWhile (isDigit 10) ≠ [] then digits.dropWhile (isDigit 10)
    else marker :: s
  | [] => []

def unreadMagnitude : List UInt8 → List UInt8
  | 48 :: x :: s =>
    match if x = 120 ∨ x = 88 then mantissa 16 s else none with
    | some (_, rest) => unreadExponent 112 80 rest
    | none => (mantissa 10 (48 :: x :: s)).elim (48 :: x :: s) fun (_, rest) => unreadExponent 101 69 rest
  | s => (mantissa 10 s).elim s fun (_, rest) => unreadExponent 101 69 rest

def wholeDouble (P : Platform) (s : List UInt8) : Option ℚ :=
  if unreadMagnitude (sign (s.dropWhile isSpace)).2 = [] then stod P s else none

section Whole

variable {s : List UInt8} {z : ℤ}

theorem integer_of_whole (h : wholeInteger s = some z) :
    ∃ negative n, integer s = some (negative, n) ∧ (if negative then -(n : ℤ) else n) = z := by
  unfold wholeInteger at h
  unfold integer
  cases hsign : sign (s.dropWhile isSpace) with
  | mk negative digits =>
    simp only [hsign] at h ⊢
    by_cases hdigits : digits ≠ [] ∧ digits.all (isDigit 10) = true
    · rw [if_pos hdigits] at h
      obtain ⟨hne, hall⟩ := hdigits
      have htake : digits.takeWhile (isDigit 10) = digits := List.takeWhile_eq_self_iff.mpr (List.all_eq_true.mp hall)
      obtain ⟨b, more, rfl⟩ := List.exists_cons_of_ne_nil hne
      rw [htake]
      exact ⟨negative, value 10 (b :: more), rfl, Option.some.inj h⟩
    · rw [if_neg hdigits] at h
      cases h

theorem stoull_of_whole (h : wholeInteger s = some z) (hlow : 0 ≤ z) (hhigh : z < 2 ^ 64) : ∃ n, stoull s = some n := by
  obtain ⟨negative, n, hinteger, rfl⟩ := integer_of_whole h
  have hn : n < 2 ^ 64 := by
    cases negative with
    | false =>
      have hhigh : (n : ℤ) < 2 ^ 64 := hhigh
      omega
    | true =>
      have hlow : 0 ≤ -(n : ℤ) := hlow
      omega
  unfold stoull
  rw [hinteger]
  exact ⟨_, if_pos hn⟩

theorem stoll_of_whole (h : wholeInteger s = some z) (hlow : -2 ^ 63 ≤ z) (hhigh : z < 2 ^ 63) : stoll s = some z := by
  obtain ⟨negative, n, hinteger, rfl⟩ := integer_of_whole h
  unfold stoll
  rw [hinteger]
  exact if_pos ⟨hlow, hhigh⟩

end Whole

section Fractions

variable {k n : ℕ}

theorem foldl_value (b : ℕ) (s : List UInt8) (m : ℕ) :
    s.foldl (fun n c => b * n + digitValue c) m = m * b ^ s.length + value b s := by
  induction s generalizing m with
  | nil => simp [value]
  | cons c s ih =>
    have hvalue : value b (c :: s) = s.foldl (fun n c => b * n + digitValue c) (b * 0 + digitValue c) := rfl
    rw [hvalue, List.foldl_cons, ih, ih, List.length_cons]
    ring

theorem value_append (b : ℕ) (s t : List UInt8) : value b (s ++ t) = value b s * b ^ t.length + value b t := by
  unfold value
  rw [List.foldl_append, foldl_value]
  rfl

theorem value_zeros (k : ℕ) : value 10 (List.replicate k 48) = 0 := by
  induction k with
  | zero => rfl
  | succ k ih => exact ih

theorem ofNat_length_le (hk : 0 < k) (h : n < 10 ^ k) : (ofNat n).length ≤ k := by
  rw [ofNat, List.length_map]
  exact (Nat.length_toDigits_le_iff (by decide) hk).mpr h

/-- What the digits behind a point are worth. -/
def fraction (digits : List UInt8) : ℚ := value 10 digits / 10 ^ digits.length

theorem fraction_append_zeros (digits : List UInt8) (k : ℕ) :
    fraction (digits ++ List.replicate k 48) = fraction digits := by
  unfold fraction
  rw [value_append, value_zeros, List.length_append, List.length_replicate, pow_add]
  push_cast
  field_simp
  ring

/-- The number `n` of `k` digits, filled up with zeros in front. -/
def padded (k n : ℕ) : List UInt8 := List.replicate (k - (ofNat n).length) 48 ++ ofNat n

theorem padded_length (hk : 0 < k) (h : n < 10 ^ k) : (padded k n).length = k := by
  rw [padded, List.length_append, List.length_replicate]
  exact Nat.sub_add_cancel (ofNat_length_le hk h)

theorem fraction_padded (hk : 0 < k) (h : n < 10 ^ k) : fraction (padded k n) = (n : ℚ) / 10 ^ k := by
  rw [fraction, padded_length hk h, padded, value_append, value_zeros, value_ofNat, Nat.zero_mul, Nat.zero_add]

theorem isDigit_of_mem_padded {b : UInt8} (h : b ∈ padded k n) : isDigit 10 b = true := by
  obtain h | h := List.mem_append.mp h
  · rw [List.eq_of_mem_replicate h]
    decide
  · exact isDigit_of_mem_ofNat h

end Fractions

theorem inRange_of_normal {x : ℚ} (hlow : 2 ^ (-1022 : ℤ) ≤ x) (hhigh : x < 2 ^ (1023 : ℤ)) : InRange x := by
  have hgreatest : (2 : ℚ) ^ (970 : ℤ) ≤ 2 ^ (1023 : ℤ) := zpow_le_zpow_right₀ one_le_two (by decide)
  have hleast : (0 : ℚ) < 2 ^ (-1076 : ℤ) := zpow_pos two_pos _
  refine ⟨lt_sub_iff_add_lt.mpr ?_, .inl ((sub_le_self _ hleast.le).trans hlow)⟩
  calc x + 2 ^ (970 : ℤ) < 2 ^ (1023 : ℤ) + 2 ^ (1023 : ℤ) := add_lt_add_of_lt_of_le hhigh hgreatest
    _ = 2 ^ (1023 : ℤ) * 2 := (mul_two _).symm
    _ = 2 ^ (1024 : ℤ) := (zpow_add_one₀ two_ne_zero 1023).symm

theorem mantissa_of_letter {base : ℕ} {b : UInt8} {s : List UInt8} (hdigit : isDigit base b = false) (hpoint : b ≠ 46) :
    mantissa base (b :: s) = none := by
  have htake : (b :: s).takeWhile (isDigit base) = [] := List.takeWhile_cons_of_neg (by simp [hdigit])
  have hdrop : (b :: s).dropWhile (isDigit base) = b :: s := List.dropWhile_cons_of_neg (by simp [hdigit])
  unfold mantissa
  rw [htake, hdrop]
  simp [hpoint]

/-- A text that starts like a word is no number. -/
theorem stod_of_letter (P : Platform) {b : UInt8} {s t : List UInt8} (hdigit : isDigit 10 b = false) (hpoint : b ≠ 46)
    (hs : (sign (s.dropWhile isSpace)).2 = b :: t) : stod P s = none := by
  have hmagnitude : magnitude (b :: t) = none := by
    unfold magnitude
    split
    next heq =>
      obtain ⟨rfl, -⟩ := List.cons.inj heq
      exact absurd hdigit (by decide)
    · rw [mantissa_of_letter hdigit hpoint]
      rfl
  unfold stod
  simp only [hs, hmagnitude]

section Point

variable {k n w : ℕ} {s : List UInt8}

theorem sign_of_digits (hs : ∀ b ∈ s, isDigit 10 b = true) (rest : List UInt8) (hne : s ≠ []) :
    sign (s ++ rest) = (false, s ++ rest) := by
  obtain ⟨b, t, rfl⟩ := List.exists_cons_of_ne_nil hne
  have hdigit := hs b List.mem_cons_self
  rw [List.cons_append]
  unfold sign
  split
  next heq =>
    obtain ⟨rfl, -⟩ := List.cons.inj heq
    exact absurd hdigit (by decide)
  next heq =>
    obtain ⟨rfl, -⟩ := List.cons.inj heq
    exact absurd hdigit (by decide)
  · rfl

theorem sign_signed (hs : ∀ b ∈ s, isDigit 10 b = true) (hne : s ≠ []) (negative : Bool) (rest : List UInt8) :
    sign (((if negative then [45] else []) ++ s ++ rest).dropWhile isSpace) = (negative, s ++ rest) := by
  cases negative with
  | false =>
    obtain ⟨b, t, rfl⟩ := List.exists_cons_of_ne_nil hne
    have hb : isSpace b = false := isSpace_of_isDigit (hs b List.mem_cons_self)
    have hdrop : (b :: t ++ rest).dropWhile isSpace = b :: t ++ rest := by
      rw [List.cons_append, List.dropWhile_cons_of_neg (by simp [hb])]
    simp only [Bool.false_eq_true, if_false, List.nil_append]
    rw [hdrop]
    exact sign_of_digits hs _ hne
  | true => rfl

theorem magnitude_of_decimal (h : ∀ b ∈ s.tail.head?, b ≠ 120 ∧ b ≠ 88) :
    magnitude s = (mantissa 10 s).map fun (m, rest) => m * 10 ^ exponent 101 69 rest := by
  unfold magnitude
  split
  · next b t =>
    obtain ⟨hlower, hupper⟩ := h b rfl
    rw [if_neg (not_or.mpr ⟨hlower, hupper⟩)]
  · rfl

end Point

end Klett.Lib.Decimal
