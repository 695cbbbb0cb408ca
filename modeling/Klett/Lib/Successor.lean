import Mathlib.Data.Fintype.EquivFin

namespace Klett.Lib

section Successor

variable {α : Type*} {r : α → α → Prop} [IsStrictOrder α r] {next : α → Option α}

theorem wellFounded_rising [Finite α] (r : α → α → Prop) [IsStrictOrder α r] : WellFounded (Function.swap r) :=
  Finite.wellFounded_of_trans_of_irrefl _

/-- Start at `a` and go on to the next as long as there is one. -/
def following [Finite α] (next : α → Option α) (r : α → α → Prop) [IsStrictOrder α r]
    (rises : ∀ a b, next a = some b → r a b) (a : α) : List α :=
  match _ : next a with
  | none => [a]
  | some b => a :: following next r rises b
termination_by (wellFounded_rising r).wrap a
decreasing_by exact rises a b ‹_›

variable [Finite α] {rises : ∀ a b, next a = some b → r a b} {a b c : α}

theorem following_of_none (h : next a = none) : following next r rises a = [a] := by
  rw [following]
  split
  · rfl
  next b hb => exact absurd (h.symm.trans hb) (by simp)

theorem following_of_some (h : next a = some b) :
    following next r rises a = a :: following next r rises b := by
  rw [following]
  split
  next hnone => exact absurd (h.symm.trans hnone) (by simp)
  next b' hb =>
    rw [Option.some.inj (h.symm.trans hb)]

theorem following_induction {motive : α → Prop} (rises : ∀ a b, next a = some b → r a b)
    (last : ∀ a, next a = none → motive a) (more : ∀ a b, next a = some b → motive b → motive a) (a : α) :
    motive a := by
  induction a using (wellFounded_rising r).induction with
  | h a ih =>
    cases h : next a with
    | none => exact last a h
    | some b => exact more a b h (ih b (rises a b h))

theorem mem_following (covers : ∀ a b, next a = some b → ∀ c, r a c → c = b ∨ r b c)
    (ends : ∀ a, next a = none → ∀ c, ¬r a c) : c ∈ following next r rises a ↔ c = a ∨ r a c := by
  induction a using following_induction rises with
  | last a h =>
    rw [following_of_none h, List.mem_singleton]
    exact (or_iff_left (ends a h c)).symm
  | more a b h ih =>
    rw [following_of_some h, List.mem_cons, ih]
    refine or_congr_right ⟨fun hc => ?_, covers a b h c⟩
    rcases hc with rfl | hc
    · exact rises a c h
    · exact IsTrans.trans _ _ _ (rises a b h) hc

theorem following_pairwise (covers : ∀ a b, next a = some b → ∀ c, r a c → c = b ∨ r b c)
    (ends : ∀ a, next a = none → ∀ c, ¬r a c) : (following next r rises a).Pairwise r := by
  induction a using following_induction rises with
  | last a h =>
    rw [following_of_none h]
    exact List.pairwise_singleton r a
  | more a b h ih =>
    rw [following_of_some h, List.pairwise_cons]
    refine ⟨fun c hc => ?_, ih⟩
    rcases (mem_following covers ends).mp hc with rfl | hbc
    · exact rises a c h
    · exact IsTrans.trans _ _ _ (rises a b h) hbc

end Successor

end Klett.Lib
