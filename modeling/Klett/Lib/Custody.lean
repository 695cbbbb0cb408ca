import Mathlib.Data.Nat.Basic
import Mathlib.Logic.Function.Basic

/-!
Numbered things in the custody of places, each place with one thing at most. Only a place lets go of a thing.
-/

namespace Klett.Lib

variable {ι : Type*} {own : ι → Option ℕ} {born c d : ℕ} {released : ℕ → ℕ} {i j k : ι}

/-- Things `0` to `born - 1` came into being, and `released` counts how often each was let go. -/
structure Custody (own : ι → Option ℕ) (born : ℕ) (released : ℕ → ℕ) : Prop where
  apart : ∀ i j c, own i = some c → own j = some c → i = j
  held : ∀ i c, own i = some c → c < born ∧ released c = 0
  gone : ∀ c < born, released c = 1 ∨ ∃ i, own i = some c
  later : ∀ c, born ≤ c → released c = 0

namespace Custody

theorem empty (ι : Type*) : Custody (fun _ : ι => none) 0 fun _ => 0 where
  apart i j c h := by cases h
  held i c h := by cases h
  gone c hc := absurd hc (Nat.not_lt_zero c)
  later _ _ := rfl

theorem released_le_one (h : Custody own born released) (c : ℕ) : released c ≤ 1 := by
  obtain hlt | hge := Nat.lt_or_ge c born
  · obtain hone | ⟨i, hi⟩ := h.gone c hlt
    · exact Nat.le_of_eq hone
    · rw [(h.held i c hi).2]
      exact Nat.zero_le 1
  · rw [h.later c hge]
    exact Nat.zero_le 1

section Moves

variable [DecidableEq ι]

theorem update_none_eq_some (hk : Function.update own j none k = some d) : own k = some d ∧ k ≠ j := by
  obtain rfl | hne := eq_or_ne k j
  · rw [Function.update_self] at hk
    cases hk
  · rw [Function.update_of_ne hne] at hk
    exact ⟨hk, hne⟩

theorem update_some_eq_some (hloose : ∀ k, own k ≠ some c) (hk : Function.update own i (some c) k = some d) :
    k = i ∧ d = c ∨ own k = some d ∧ d ≠ c := by
  obtain rfl | hne := eq_or_ne k i
  · rw [Function.update_self] at hk
    exact .inl ⟨rfl, (Option.some.inj hk).symm⟩
  · rw [Function.update_of_ne hne] at hk
    refine .inr ⟨hk, ?_⟩
    rintro rfl
    exact hloose k hk

theorem exists_update_some (hi : own i = none) (h : ∃ k, own k = some d) :
    ∃ k, Function.update own i (some c) k = some d := by
  obtain ⟨k, hk⟩ := h
  have hne : k ≠ i := by
    rintro rfl
    rw [hi] at hk
    cases hk
  exact ⟨k, (Function.update_of_ne hne ..).trans hk⟩

theorem exists_update_none (hj : own j = some c) (hdc : d ≠ c) (h : ∃ k, own k = some d) :
    ∃ k, Function.update own j none k = some d := by
  obtain ⟨k, hk⟩ := h
  have hne : k ≠ j := by
    rintro rfl
    rw [hj] at hk
    exact hdc (Option.some.inj hk).symm
  exact ⟨k, (Function.update_of_ne hne ..).trans hk⟩

theorem exists_hand (hj : own j = some c) (hi : own i = none) (h : ∃ k, own k = some d) :
    ∃ k, Function.update (Function.update own j none) i (some c) k = some d := by
  obtain rfl | hne := eq_or_ne d c
  · exact ⟨i, Function.update_self ..⟩
  · apply exists_update_some
    · obtain rfl | hij := eq_or_ne i j
      · exact Function.update_self ..
      · exact (Function.update_of_ne hij ..).trans hi
    · exact exists_update_none hj hne h

theorem apart_update (hapart : ∀ i j c, own i = some c → own j = some c → i = j) (hloose : ∀ k, own k ≠ some c)
    (k l : ι) (d : ℕ) (hk : Function.update own i (some c) k = some d)
    (hl : Function.update own i (some c) l = some d) : k = l := by
  obtain ⟨rfl, rfl⟩ | ⟨hk, hne⟩ := update_some_eq_some hloose hk
  · obtain ⟨rfl, -⟩ | ⟨-, hne⟩ := update_some_eq_some hloose hl
    · rfl
    · exact absurd rfl hne
  · obtain ⟨-, rfl⟩ | ⟨hl, -⟩ := update_some_eq_some hloose hl
    · exact absurd rfl hne
    · exact hapart k l d hk hl

theorem acquire (h : Custody own born released) (hi : own i = none) :
    Custody (Function.update own i (some born)) (born + 1) released := by
  have hloose : ∀ k, own k ≠ some born := fun k hk => Nat.lt_irrefl born (h.held k born hk).1
  constructor
  case apart => exact apart_update h.apart hloose
  case held =>
    intro k c hk
    obtain ⟨-, rfl⟩ | ⟨hk, -⟩ := update_some_eq_some hloose hk
    · exact ⟨Nat.lt_succ_self c, h.later c (Nat.le_refl c)⟩
    · obtain ⟨hlt, hzero⟩ := h.held k c hk
      exact ⟨Nat.lt_succ_of_lt hlt, hzero⟩
  case gone =>
    intro c hc
    obtain rfl | hlt := Nat.eq_or_lt_of_le (Nat.le_of_lt_succ hc)
    · exact .inr ⟨i, Function.update_self ..⟩
    · exact (h.gone c hlt).imp_right (exists_update_some hi)
  case later => exact fun c hc => h.later c (Nat.le_of_succ_le hc)

theorem release (h : Custody own born released) (hi : own i = some c) :
    Custody (Function.update own i none) born (Function.update released c (released c + 1)) := by
  obtain ⟨hc, hzero⟩ := h.held i c hi
  constructor
  case apart =>
    intro k l d hk hl
    exact h.apart k l d (update_none_eq_some hk).1 (update_none_eq_some hl).1
  case held =>
    intro k d hk
    obtain ⟨hk, hki⟩ := update_none_eq_some hk
    have hne : d ≠ c := by
      rintro rfl
      exact hki (h.apart k i d hk hi)
    rw [Function.update_of_ne hne]
    exact h.held k d hk
  case gone =>
    intro d hd
    obtain rfl | hne := eq_or_ne d c
    · left
      rw [Function.update_self, hzero]
    · rw [Function.update_of_ne hne]
      exact (h.gone d hd).imp_right (exists_update_none hi hne)
  case later =>
    intro d hd
    rw [Function.update_of_ne (by omega)]
    exact h.later d hd

theorem hand (h : Custody own born released) (hj : own j = some c) (hi : own i = none) :
    Custody (Function.update (Function.update own j none) i (some c)) born released := by
  have hloose : ∀ k, Function.update own j none k ≠ some c := by
    intro k hk
    obtain ⟨hk, hkj⟩ := update_none_eq_some hk
    exact hkj (h.apart k j c hk hj)
  constructor
  case apart =>
    apply apart_update _ hloose
    intro k l d hk hl
    exact h.apart k l d (update_none_eq_some hk).1 (update_none_eq_some hl).1
  case held =>
    intro k d hk
    obtain ⟨-, rfl⟩ | ⟨hk, -⟩ := update_some_eq_some hloose hk
    · exact h.held j d hj
    · exact h.held k d (update_none_eq_some hk).1
  case gone =>
    intro d hd
    exact (h.gone d hd).imp_right (exists_hand hj hi)
  case later => exact h.later

end Moves

end Custody

end Klett.Lib
