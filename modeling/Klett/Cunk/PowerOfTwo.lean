import Klett.Cunk.MpmcOrder

namespace Klett.Cunk.MpmcQueue

open Klett.Lib RingIndex

section RoundUp

def isPowerOfTwo (v : ℕ) : Bool := v ≠ 0 ∧ v &&& (v + (size - 1)) % size = 0

variable {v r : ℕ}

theorem isPowerOfTwo_two_pow {k : ℕ} (hk : k < 64) : isPowerOfTwo (2 ^ k) = true := by
  have hmask : (2 ^ k + (size - 1)) % size = 2 ^ k - 1 := mask_two_pow hk
  apply decide_eq_true
  rw [hmask, Nat.and_two_pow_sub_one_eq_mod, Nat.mod_self]
  exact ⟨(Nat.two_pow_pos k).ne', rfl⟩

/-- A request of nothing or of one slot counts as a request of two. -/
theorem nextPowerOfTwo_least (hpos : 1 ≤ v) (hle : v ≤ 2 ^ 63) :
    (∃ k, nextPowerOfTwo v = 2 ^ k) ∧ isPowerOfTwo (nextPowerOfTwo v) = true ∧
      v ≤ nextPowerOfTwo v ∧ (∀ k, v ≤ 2 ^ k → nextPowerOfTwo v ≤ 2 ^ k) ∧
        ∀ r ≤ 2 ^ 63, max r 2 ≤ capacityOf r ∧ ∀ pos, index (capacityOf r) pos = pos % capacityOf r := by
  rw [nextPowerOfTwo_eq_clog hpos hle]
  refine ⟨⟨_, rfl⟩, isPowerOfTwo_two_pow (clog_lt hle), Nat.le_pow_clog Nat.one_lt_two v, ?_, ?_⟩
  · intro k hk
    exact Nat.pow_le_pow_right Nat.two_pos (Nat.clog_le_of_le_pow hk)
  · intro r hr
    rw [capacityOf_eq_clog hr]
    refine ⟨Nat.le_pow_clog Nat.one_lt_two _, fun pos => ?_⟩
    exact index_two_pow (clog_lt (by omega))

theorem nextPowerOfTwo_least_thousand : nextPowerOfTwo 1000 = 1024 ∧ 1 ≤ 1000 ∧ 1000 ≤ 2 ^ 63 ∧
    isPowerOfTwo (nextPowerOfTwo 1000) = true ∧ (∀ k, 1000 ≤ 2 ^ k → nextPowerOfTwo 1000 ≤ 2 ^ k) ∧
      ∀ pos, index (capacityOf 1000) pos = pos % capacityOf 1000 := by
  obtain ⟨-, hpower, -, hleast, hmask⟩ := nextPowerOfTwo_least (v := 1000) (by decide) (by decide)
  exact ⟨by decide, by decide, by decide, hpower, hleast, (hmask 1000 (by decide)).2⟩

end RoundUp

end Klett.Cunk.MpmcQueue
