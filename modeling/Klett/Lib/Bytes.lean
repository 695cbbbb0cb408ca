import Mathlib.Algebra.Order.Ring.Nat
import Mathlib.Data.List.Basic
import Mathlib.Data.UInt
import Mathlib.Tactic.Ring

namespace Klett.Lib

/-- The most significant byte comes first. -/
def toBytes : ℕ → ℕ → List UInt8
  | 0, _ => []
  | k + 1, n => toBytes k (n / 256) ++ [UInt8.ofNat n]

def ofBytes (bytes : List UInt8) : ℕ := bytes.foldl (fun n b => 256 * n + b.toNat) 0

@[simp] theorem length_toBytes (k n : ℕ) : (toBytes k n).length = k := by
  induction k generalizing n with
  | zero => rfl
  | succ k ih => rw [toBytes, List.length_append, ih, List.length_singleton]

theorem ofBytes_concat (bytes : List UInt8) (b : UInt8) : ofBytes (bytes ++ [b]) = 256 * ofBytes bytes + b.toNat := by
  rw [ofBytes, List.foldl_append]
  rfl

theorem ofBytes_toBytes (k n : ℕ) : ofBytes (toBytes k n) = n % 256 ^ k := by
  induction k generalizing n with
  | zero => rw [pow_zero, Nat.mod_one]; rfl
  | succ k ih =>
    rw [toBytes, ofBytes_concat, ih, UInt8.toNat_ofNat', pow_succ' 256 k, Nat.mod_mul]
    omega

end Klett.Lib

/-!
A contiguous array of records of one width, as the bytes it has in memory.
-/

namespace Klett.Lib

structure RawBuffer (width : ℕ) where
  count : ℕ
  bytes : List UInt8
  fits : bytes.length = count * width

namespace RawBuffer

variable {width : ℕ} (b : RawBuffer width)

def record (i : ℕ) : List UInt8 := (b.bytes.drop (i * width)).take width

def empty : RawBuffer width := ⟨0, [], (Nat.zero_mul width).symm⟩

/-- Records beyond the end are blank. -/
def resize (blank : List UInt8) (hblank : blank.length = width) (n : ℕ) : RawBuffer width where
  count := n
  bytes := (b.bytes ++ (List.replicate n blank).flatten).take (n * width)
  fits := by
    rw [List.length_take, List.length_append, List.length_flatten, List.map_replicate, List.sum_replicate_nat, hblank,
      Nat.min_eq_left (by simp)]

/-- The bytes are written over the first ones of the buffer. -/
def overlay (body : List UInt8) : RawBuffer width where
  count := b.count
  bytes := body.take (b.count * width) ++ b.bytes.drop body.length
  fits := by
    rw [List.length_append, List.length_take, List.length_drop, b.fits]
    omega

variable {b} {blank body : List UInt8} {hblank : blank.length = width}

theorem ext {c : RawBuffer width} (hcount : b.count = c.count) (hbytes : b.bytes = c.bytes) : b = c := by
  cases b
  cases c
  simp only at hcount hbytes
  subst hcount hbytes
  rfl

theorem resize_self : b.resize blank hblank b.count = b := by
  exact ext rfl (List.take_left' b.fits)

theorem overlay_full {c : RawBuffer width} (h : b.count = c.count) : b.overlay c.bytes = c := by
  have hlength : b.bytes.length = c.bytes.length := by rw [b.fits, c.fits, h]
  refine ext h ?_
  change c.bytes.take (b.count * width) ++ b.bytes.drop c.bytes.length = c.bytes
  rw [List.drop_eq_nil_of_le hlength.le, List.append_nil, h, ← c.fits, List.take_length]

end RawBuffer

end Klett.Lib
