import Klett.Lib.Ranked
import Klett.Sor.BookUpdate

namespace Klett.Sor

open Klett.Lib MarketDataAggregator BookSide

/-- A level with the number of orders behind it, which no strategy reads. -/
structure CountedLevel extends PriceLevel where
  orderCount : ℤ := 0

structure CountedSide where
  levels : List CountedLevel
  fits : levels.length ≤ maxDepth

namespace CountedSide

section Model

def place (isBid : Bool) (level : CountedLevel) : List CountedLevel → List CountedLevel
  | [] => [level]
  | lvl :: levels =>
    if ahead isBid lvl.price level.price then lvl :: place isBid level levels
    else if lvl.price = level.price then level :: levels
    else level :: lvl :: levels

theorem place_toPriceLevel (isBid : Bool) (level : CountedLevel) (levels : List CountedLevel) :
    (place isBid level levels).map CountedLevel.toPriceLevel =
      BookSide.place isBid level.toPriceLevel (levels.map CountedLevel.toPriceLevel) := by
  induction levels with
  | nil => rfl
  | cons lvl levels ih =>
    rw [List.map_cons]
    unfold place BookSide.place
    split_ifs
    · rw [List.map_cons, ih]
    · rfl
    · rfl

theorem place_length (isBid : Bool) (level : CountedLevel) (levels : List CountedLevel) :
    (place isBid level levels).length ≤ levels.length + 1 := by
  have hlength := BookSide.place_length isBid level.toPriceLevel (levels.map CountedLevel.toPriceLevel)
  rwa [← place_toPriceLevel, List.length_map, List.length_map] at hlength

def empty : CountedSide := ⟨[], Nat.zero_le maxDepth⟩

variable (s : CountedSide)

def worst : CountedLevel := s.levels.getLastD {}

def insertSorted (level : CountedLevel) (isBid : Bool) : CountedSide :=
  if h : s.levels.length ≥ maxDepth then
    if ¬ahead isBid level.price s.worst.price then s
    else
      { levels := place isBid level s.levels.dropLast
        fits := by
          have hplaced := place_length isBid level s.levels.dropLast
          have hfits := s.fits
          have hdepth : maxDepth = 20 := rfl
          rw [List.length_dropLast] at hplaced
          omega }
  else
    { levels := place isBid level s.levels
      fits := (place_length isBid level s.levels).trans (Nat.lt_of_not_le h) }

def toBookSide : BookSide := ⟨s.levels.map CountedLevel.toPriceLevel, (List.length_map _).trans_le s.fits⟩

theorem worst_toPriceLevel : s.toBookSide.worst = s.worst.toPriceLevel := by
  unfold BookSide.worst worst toBookSide
  rw [List.getLastD_eq_getLast?, List.getLastD_eq_getLast?, List.getLast?_map]
  cases s.levels.getLast? with
  | none => rfl
  | some last => rfl

/-- The count goes where its level goes. -/
theorem insertSorted_toBookSide (level : CountedLevel) (isBid : Bool) :
    (s.insertSorted level isBid).toBookSide = s.toBookSide.insertSorted level.toPriceLevel isBid := by
  have hlength : s.toBookSide.levels.length = s.levels.length := List.length_map _
  unfold insertSorted BookSide.insertSorted
  simp only [hlength, worst_toPriceLevel]
  split_ifs
  · simp only [toBookSide, place_toPriceLevel, List.map_dropLast]
  · rfl
  · simp only [toBookSide, place_toPriceLevel]

end Model

section Best

variable {side : Side} {s : CountedSide} {level : CountedLevel}

def rank (side : Side) (lvl : CountedLevel) : ℤ := worth side lvl.price

theorem place_eq_ranked (side : Side) (level : CountedLevel) (levels : List CountedLevel) :
    place (side = .buy) level levels = Ranked.place (rank side) level levels := by
  induction levels with
  | nil => rfl
  | cons lvl levels ih =>
    have hprice : lvl.price = level.price ↔ rank side lvl = rank side level :=
      ⟨congrArg (worth side), fun h => worth_inj side h⟩
    unfold place Ranked.place
    simp only [ahead_iff, hprice, ih]
    rfl

theorem worst_eq {last : CountedLevel} (h : s.levels.getLast? = some last) : s.worst = last := by
  rw [worst, List.getLastD_eq_getLast?, h, Option.getD_some]

theorem insertSorted_levels (s : CountedSide) (level : CountedLevel) (side : Side) :
    (s.insertSorted level (side = .buy)).levels = Ranked.bounded (rank side) maxDepth level s.levels := by
  unfold insertSorted Ranked.bounded
  obtain hroom | hfull := Nat.lt_or_ge s.levels.length maxDepth
  · rw [dif_neg (Nat.not_le.mpr hroom), if_pos hroom]
    exact place_eq_ranked side level s.levels
  · obtain ⟨last, hlast⟩ : ∃ last, s.levels.getLast? = some last := by
      apply Option.ne_none_iff_exists'.mp
      intro hnone
      rw [List.getLast?_eq_none_iff.mp hnone] at hfull
      exact absurd hfull (by decide)
    rw [dif_pos hfull, if_neg (Nat.not_lt.mpr hfull), hlast, worst_eq hlast]
    by_cases hbetter : rank side last < rank side level
    · have hahead : ¬¬ahead (side = .buy) level.price last.price :=
        not_not.mpr ((ahead_iff side level.price last.price).mpr hbetter)
      rw [if_neg hahead]
      simp only [if_pos hbetter]
      exact place_eq_ranked side level s.levels.dropLast
    · have hbehind : ¬ahead (side = .buy) level.price last.price :=
        fun h => hbetter ((ahead_iff side level.price last.price).mp h)
      rw [if_pos hbehind]
      simp only [if_neg hbetter]

/-- A full side that has the price already gives up its worst level all the same. -/
theorem insertSorted_eq_best_iff (side : Side) (s : CountedSide) (level : CountedLevel)
    (hs : Ranked.Strict (rank side) s.levels) :
    (s.insertSorted level (side = .buy)).levels = (Ranked.replaceOrInsert (rank side) level s.levels).take maxDepth ↔
      s.levels.length < maxDepth ∨ (∀ lvl ∈ s.levels, lvl.price ≠ level.price) ∨ s.levels.getLast? = some level := by
  have hrank : (∀ lvl ∈ s.levels, lvl.price ≠ level.price) ↔ ∀ lvl ∈ s.levels, rank side lvl ≠ rank side level := by
    constructor
    · intro h lvl hlvl heq
      exact h lvl hlvl (worth_inj side heq)
    · intro h lvl hlvl heq
      exact h lvl hlvl (congrArg (worth side) heq)
  rw [insertSorted_levels, hrank]
  exact Ranked.bounded_eq_take_iff hs (by decide) s.fits

theorem insertSorted_eq_best_room :
    let s : CountedSide := ⟨[{ price := 151, quantity := 10 }, { price := 153, quantity := 10 }], by decide⟩
    Ranked.Strict (rank .sell) s.levels ∧
      (s.insertSorted { price := 152, quantity := 5 } (Side.sell = .buy)).levels =
        (Ranked.replaceOrInsert (rank .sell) { price := 152, quantity := 5 } s.levels).take maxDepth := by
  intro s
  have hs : Ranked.Strict (rank .sell) s.levels := by
    unfold Ranked.Strict
    decide
  exact ⟨hs, (insertSorted_eq_best_iff .sell s _ hs).mpr (.inl (by decide))⟩

def fullBids : CountedSide where
  levels := (List.range maxDepth).map fun i : ℕ => { price := 120 - (i : ℤ), quantity := 10, orderCount := 1 }
  fits := by rw [List.length_map, List.length_range]

/-- The best bid is quoted anew, and the worst of twenty is gone. -/
theorem insertSorted_loses_worst :
    let level : CountedLevel := { price := 120, quantity := 7, orderCount := 1 }
    Ranked.Strict (rank .buy) fullBids.levels ∧ 0 < level.quantity ∧
      (fullBids.insertSorted level true).levels.length = 19 ∧
      (fullBids.insertSorted level true).levels ≠
        (Ranked.replaceOrInsert (rank .buy) level fullBids.levels).take maxDepth := by
  intro level
  have hlength : (fullBids.insertSorted level true).levels.length = 19 := by decide
  refine ⟨?_, by decide, hlength, fun heq => ?_⟩
  · unfold Ranked.Strict
    decide
  · rw [heq] at hlength
    exact absurd hlength (by decide)

end Best

end CountedSide

end Klett.Sor
