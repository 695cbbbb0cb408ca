import Mathlib.Logic.Function.Iterate

namespace Klett.Lib

variable {w : ℕ}

/-- Adding to each bit what depends only on bits of smaller rank loses nothing: the bits can be read back in the order
of their ranks. -/
theorem xor_injective {f : BitVec w → BitVec w} (rank : ℕ → ℕ)
    (hf : ∀ x y i, i < w → (∀ j, rank j < rank i → x.getLsbD j = y.getLsbD j) → (f x).getLsbD i = (f y).getLsbD i) :
    Function.Injective fun x => x ^^^ f x := by
  intro x y h
  have hbits : ∀ n i, rank i = n → i < w → x.getLsbD i = y.getLsbD i := by
    intro n
    induction n using Nat.strongRecOn with
    | ind n ih =>
      intro i hi hw
      have hsame : (f x).getLsbD i = (f y).getLsbD i := by
        apply hf x y i hw
        intro j hj
        by_cases hjw : j < w
        · exact ih (rank j) (hi ▸ hj) j rfl hjw
        · rw [BitVec.getLsbD_of_ge x j (Nat.not_lt.mp hjw), BitVec.getLsbD_of_ge y j (Nat.not_lt.mp hjw)]
      have hbit : (x ^^^ f x).getLsbD i = (y ^^^ f y).getLsbD i := congrArg (fun z => z.getLsbD i) h
      rw [BitVec.getLsbD_xor, BitVec.getLsbD_xor, hsame] at hbit
      exact Bool.xor_left_inj.mp hbit
  apply BitVec.eq_of_getLsbD_eq
  intro i hi
  exact hbits (rank i) i rfl hi

theorem xor_shiftLeft_injective {k : ℕ} (hk : 0 < k) : Function.Injective fun x : BitVec w => x ^^^ (x <<< k) := by
  apply xor_injective id
  intro x y i _ hlower
  rw [BitVec.getLsbD_shiftLeft, BitVec.getLsbD_shiftLeft]
  by_cases hi : i < k
  · simp [hi]
  · rw [hlower (i - k) (show i - k < i by omega)]

theorem xor_ushiftRight_injective {k : ℕ} (hk : 0 < k) : Function.Injective fun x : BitVec w => x ^^^ (x >>> k) := by
  apply xor_injective fun i => w - i
  intro x y i hi hhigher
  rw [BitVec.getLsbD_ushiftRight, BitVec.getLsbD_ushiftRight]
  apply hhigher
  omega

theorem iterate_ne {α : Type*} {f : α → α} (hf : Function.Injective f) {z x : α} (hz : f z = z) (hx : x ≠ z) (n : ℕ) :
    f^[n] x ≠ z := by
  intro h
  apply hx
  apply hf.iterate n
  rw [h, Function.iterate_fixed hz]

end Klett.Lib
