import Mathlib.Data.List.Pairwise
import Mathlib.Data.List.Rotate
import Klett.Sor.Nbbo
import Klett.Sor.SweepConservation

namespace Klett.Sor.LiquiditySweep

open Klett.Lib LimitPrice MarketDataAggregator

section Display

def shownBy (v : ℕ) (level : AggregatedLevel) : ℤ :=
  ((level.venueBreakdown.filter fun vq => vq.quantity > 0 && vq.venueId = v).map VenueQuantity.quantity).sum

/-- What a venue shows at prices equal to or better than a price. -/
def shownTo (side : Side) (levels : List AggregatedLevel) (v : ℕ) (price : ℤ) : ℤ :=
  ((levels.filter fun level => level.displayed ∧ Respects side price level.price).map (shownBy v)).sum

def WithinDisplay (side : Side) (levels : List AggregatedLevel) (s : Slice) : Prop :=
  s.quantity ≤ shownTo side levels s.venueId s.price

instance (side : Side) (levels : List AggregatedLevel) (s : Slice) : Decidable (WithinDisplay side levels s) :=
  inferInstanceAs (Decidable (_ ≤ _))

end Display

section Condition

/-! The shares of a level in numbers of the book: what rounding down makes of the parts of the available venues. -/

variable (P : Platform) (minSlice : ℤ) (venues : List VenueScore)

def part (avail fill quantity : ℤ) : ℤ :=
  min (Platform.truncate (P.mul (P.div (P.ofInt quantity) (P.ofInt avail)) (P.ofInt fill))) quantity

def partsOf (avail fill : ℤ) (vqs : List VenueQuantity) : List (ℕ × ℤ) :=
  (vqs.filter fun vq => vq.quantity > 0 ∧ available venues vq.venueId).map fun vq =>
    (vq.venueId, part P avail fill vq.quantity)

def parts (level : AggregatedLevel) (fill : ℤ) : List (ℕ × ℤ) :=
  partsOf P venues (levelAvailable venues level) fill level.venueBreakdown

/-- What the parts come to that are no dust. -/
def counted (parts : List (ℕ × ℤ)) : ℤ := ((parts.filter fun p => minSlice ≤ p.2).map Prod.snd).sum

/-- Some part is as large as what the parts before it, dust apart, leave of what is wanted. -/
def Finishes : List (ℕ × ℤ) → ℤ → Prop
  | [], _ => False
  | p :: ps, wanted => wanted ≤ p.2 ∨ Finishes ps (if minSlice ≤ p.2 then wanted - p.2 else wanted)

instance decidableFinishes : (ps : List (ℕ × ℤ)) → (wanted : ℤ) → Decidable (Finishes minSlice ps wanted)
  | [], _ => isFalse id
  | p :: ps, wanted =>
    have := decidableFinishes ps (if minSlice ≤ p.2 then wanted - p.2 else wanted)
    inferInstanceAs (Decidable (_ ∨ _))

/-- What the parts of the other venues and all that the largest venue shows make up the fill, where the parts alone do
not. The largest venue may have the id 0, which stands for none. -/
def Covered (level : AggregatedLevel) (fill : ℤ) : Prop :=
  let best := bestVenue venues level
  best = 0 ∨ Finishes minSlice (parts P venues level fill) fill ∨
    fill ≤ shownBy best level + counted minSlice ((parts P venues level fill).filter (·.1 ≠ best))

instance (level : AggregatedLevel) (fill : ℤ) : Decidable (Covered P minSlice venues level fill) :=
  inferInstanceAs (Decidable (_ ∨ _ ∨ _))

/-- What a level takes of the order: all it is to fill, or its parts where there is no largest venue. -/
def taken (level : AggregatedLevel) (fill : ℤ) : ℤ :=
  if bestVenue venues level = 0 ∧ ¬Finishes minSlice (parts P venues level fill) fill then
    counted minSlice (parts P venues level fill)
  else fill

/-- The levels that an order comes to, best first, each with what it is to fill there. -/
def comesTo : List AggregatedLevel → ℤ → List (AggregatedLevel × ℤ)
  | [], _ => []
  | level :: levels, leaves =>
    if leaves > 0 then
      if level.displayed ∧ 0 < levelAvailable venues level then
        let fill := min leaves (levelAvailable venues level)
        (level, fill) :: comesTo levels (leaves - taken P minSlice venues level fill)
      else comesTo levels leaves
    else []

end Condition

section Served

/-! What a level gives to each venue: its pro-rata shares and, to the largest venue, what is left over. -/

variable (P : Platform) (minSlice : ℤ) (venues : List VenueScore) (v : ℕ)

def proRataPass (level : AggregatedLevel) (fill : ℤ) : Allocations × ℤ :=
  allocate P minSlice venues level.price (levelAvailable venues level) fill level.venueBreakdown ([], 0)

/-- What rounding down and dust leave over of what a level is to fill. -/
def leftOver (level : AggregatedLevel) (fill : ℤ) : ℤ := fill - (proRataPass P minSlice venues level fill).2

/-- A level that has no largest venue keeps what is left over. -/
def filled (level : AggregatedLevel) (fill : ℤ) : ℤ :=
  if bestVenue venues level = 0 then fill - leftOver P minSlice venues level fill else fill

/-- The levels that the sweep comes to, each with what it is to fill there. -/
def reached : List AggregatedLevel → ℤ → List (AggregatedLevel × ℤ)
  | [], _ => []
  | level :: levels, remaining =>
    if remaining > 0 then
      if level.displayed ∧ 0 < levelAvailable venues level then
        let fill := min remaining (levelAvailable venues level)
        (level, fill) :: reached levels (remaining - filled P minSlice venues level fill)
      else reached levels remaining
    else []

def shareOf (s : AggregatedLevel × ℤ) : ℤ := (proRataPass P minSlice venues s.1 s.2).1.totalAt v

def remainderOf (s : AggregatedLevel × ℤ) : ℤ :=
  if bestVenue venues s.1 = v ∧ v ≠ 0 then leftOver P minSlice venues s.1 s.2 else 0

def servedAt (s : AggregatedLevel × ℤ) : Option ℤ :=
  if v ∈ (proRataPass P minSlice venues s.1 s.2).1.keys ∨ 0 < remainderOf P minSlice venues v s then
    some s.1.price
  else none

variable (levels : List AggregatedLevel) (leaves : ℤ)

def sharesTo : ℤ := ((reached P minSlice venues levels leaves).map (shareOf P minSlice venues v)).sum

def remaindersTo : ℤ := ((reached P minSlice venues levels leaves).map (remainderOf P minSlice venues v)).sum

/-- The price of the last level that serves a venue. -/
def lastPrice : Option ℤ :=
  ((reached P minSlice venues levels leaves).filterMap (servedAt P minSlice venues v)).getLast?

end Served

section Passes

variable {P : Platform} {minSlice : ℤ} {venues : List VenueScore} {level : AggregatedLevel} {v : ℕ}
  {price avail fill allocated remaining : ℤ} {before part after : Allocations}

/-- One ledger holds what another does and a part more. -/
def Joins (before part after : Allocations) : Prop :=
  ∀ k, after.totalAt k = before.totalAt k + part.totalAt k ∧ after.markAt k = (part.markAt k).or (before.markAt k)

theorem Joins.nil (before : Allocations) : Joins before [] before :=
  fun _ => ⟨(add_zero _).symm, rfl⟩

theorem Joins.add (h : Joins before part after) (k : ℕ) (m q : ℤ) :
    Joins before (part.add k m q) (after.add k m q) := by
  intro j
  obtain ⟨htotal, hmark⟩ := h j
  rw [Ledger.totalAt_add, Ledger.totalAt_add, Ledger.markAt_add, Ledger.markAt_add, htotal, hmark]
  refine ⟨add_assoc _ _ _, ?_⟩
  split_ifs <;> rfl

variable (P minSlice venues price avail fill allocated) in
theorem allocate_joins (vqs : List VenueQuantity) (h : Joins before part after) :
    Joins before (allocate P minSlice venues price avail fill vqs (part, allocated)).1
        (allocate P minSlice venues price avail fill vqs (after, allocated)).1 ∧
      (allocate P minSlice venues price avail fill vqs (after, allocated)).2 =
        (allocate P minSlice venues price avail fill vqs (part, allocated)).2 := by
  induction vqs generalizing part after allocated with
  | nil => exact ⟨h, rfl⟩
  | cons vq vqs ih =>
    unfold allocate
    split_ifs
    · exact ih _ h
    · simp only
      split_ifs
      · exact ih _ h
      · exact ih _ (h.add _ _ _)
    · exact ⟨h, rfl⟩

variable (P minSlice venues level fill) in
def levelPart : Allocations := (assignRemainder venues level fill (proRataPass P minSlice venues level fill)).1

variable (P minSlice venues level) in
theorem proRataPass_passed (hf : 0 ≤ fill) : Passed fill ([], 0) (proRataPass P minSlice venues level fill) :=
  allocate_passed P minSlice venues level.price level.venueBreakdown (levelAvailable_nonneg venues level) hf hf
    (List.forall_mem_nil _)

variable (P minSlice venues level) in
theorem leftOver_nonneg (hf : 0 ≤ fill) : 0 ≤ leftOver P minSlice venues level fill :=
  sub_nonneg.mpr (proRataPass_passed P minSlice venues level hf).le

variable (P minSlice before) in
theorem sweepLevel_joins (hr : 0 < remaining) (ha : 0 < levelAvailable venues level) :
    Joins before (levelPart P minSlice venues level (min remaining (levelAvailable venues level)))
        (sweepLevel P minSlice venues level before remaining).1 ∧
      (sweepLevel P minSlice venues level before remaining).2 =
        remaining - filled P minSlice venues level (min remaining (levelAvailable venues level)) := by
  have hover := leftOver_nonneg P minSlice venues level (le_min hr.le ha.le)
  unfold sweepLevel levelPart filled
  unfold leftOver at hover ⊢
  simp only [not_le.mpr ha, ↓reduceIte]
  generalize min remaining (levelAvailable venues level) = fill at hover ⊢
  obtain ⟨hjoins, hsame⟩ := allocate_joins P minSlice venues level.price (levelAvailable venues level) fill 0
    level.venueBreakdown (.nil before)
  unfold proRataPass at hover ⊢
  unfold assignRemainder
  rw [hsame]
  split_ifs with hshort hbest hbest
  · exact absurd hbest hshort.2
  · exact ⟨hjoins.add _ _ _, rfl⟩
  · refine ⟨hjoins, ?_⟩
    rw [hsame, sub_sub_cancel]
  · refine ⟨hjoins, ?_⟩
    have hfull := not_lt.mp fun h => hshort ⟨h, hbest⟩
    rw [hsame]
    omega

theorem proRataPass_markAt (h : v ∈ (proRataPass P minSlice venues level fill).1.keys) :
    (proRataPass P minSlice venues level fill).1.markAt v = some level.price := by
  have hmarks : ∀ a ∈ (proRataPass P minSlice venues level fill).1, a.mark = level.price :=
    allocate_marks (p := (· = level.price)) rfl nofun
  generalize (proRataPass P minSlice venues level fill).1 = pass at h hmarks
  obtain ⟨a, ha, hmark⟩ := Ledger.exists_of_mem_keys h
  rw [hmark, hmarks a ha]

variable (P minSlice venues level v) in
theorem levelPart_at (hf : 0 ≤ fill) :
    (levelPart P minSlice venues level fill).totalAt v =
        shareOf P minSlice venues v (level, fill) + remainderOf P minSlice venues v (level, fill) ∧
      (levelPart P minSlice venues level fill).markAt v = servedAt P minSlice venues v (level, fill) := by
  have hover : 0 ≤ leftOver P minSlice venues level fill := leftOver_nonneg P minSlice venues level hf
  have hsum : leftOver P minSlice venues level fill = fill - (proRataPass P minSlice venues level fill).2 := rfl
  have hpass : (proRataPass P minSlice venues level fill).1.markAt v =
      if v ∈ (proRataPass P minSlice venues level fill).1.keys then some level.price else none := by
    split_ifs with h
    · exact proRataPass_markAt h
    · exact Ledger.markAt_of_not_mem h
  unfold levelPart assignRemainder shareOf servedAt remainderOf
  simp only
  by_cases hshort : (proRataPass P minSlice venues level fill).2 < fill ∧ bestVenue venues level ≠ 0
  · rw [if_pos hshort, Ledger.totalAt_add, Ledger.markAt_add, hpass, ← hsum]
    by_cases hv : bestVenue venues level = v
    · have hne : bestVenue venues level = v ∧ v ≠ 0 := ⟨hv, hv ▸ hshort.2⟩
      have hpos : 0 < leftOver P minSlice venues level fill := by omega
      simp only [if_pos hv, if_pos hne, hpos, or_true, ↓reduceIte, and_self]
    · have hne : ¬(bestVenue venues level = v ∧ v ≠ 0) := fun h => hv h.1
      simp only [if_neg hv, if_neg hne, lt_irrefl, or_false, and_self]
  · rw [if_neg hshort, hpass]
    have hnone : (if bestVenue venues level = v ∧ v ≠ 0 then leftOver P minSlice venues level fill else 0) = 0 := by
      split_ifs with hv
      · have hfull := not_lt.mp fun h => hshort ⟨h, hv.1 ▸ hv.2⟩
        omega
      · rfl
    rw [hnone, add_zero]
    simp only [lt_irrefl, or_false, and_self]

end Passes

section Sweeping

variable {P : Platform} {minSlice : ℤ} {venues : List VenueScore} {level : AggregatedLevel}
  {levels : List AggregatedLevel} {v : ℕ} {remaining : ℤ} {allocations : Allocations}

variable (P minSlice venues level levels remaining) in
/-- What the sweep does at its next level: it serves it, passes over it, or is done. -/
theorem sweep_cases :
    (∃ fill, 0 ≤ fill ∧ level.displayed ∧ reached P minSlice venues (level :: levels) remaining =
        (level, fill) :: reached P minSlice venues levels (remaining - filled P minSlice venues level fill) ∧
      ∀ before, ∃ after, Joins before (levelPart P minSlice venues level fill) after ∧
        sweep P minSlice venues (level :: levels) before remaining =
          sweep P minSlice venues levels after (remaining - filled P minSlice venues level fill)) ∨
    (reached P minSlice venues (level :: levels) remaining = reached P minSlice venues levels remaining ∧
      ∀ before, sweep P minSlice venues (level :: levels) before remaining =
        sweep P minSlice venues levels before remaining) ∨
    reached P minSlice venues (level :: levels) remaining = [] ∧
      ∀ before, sweep P minSlice venues (level :: levels) before remaining = before := by
  by_cases hr : remaining > 0
  · by_cases hd : level.displayed ∧ 0 < levelAvailable venues level
    · refine .inl ⟨min remaining (levelAvailable venues level), le_min hr.le hd.2.le, hd.1, ?_, fun before => ?_⟩
      · rw [reached, if_pos hr, if_pos hd]
      · obtain ⟨hjoins, hleft⟩ := sweepLevel_joins P minSlice before hr hd.2
        refine ⟨_, hjoins, ?_⟩
        rw [sweep, if_pos hr, if_pos hd.1, ← hleft]
    · refine .inr (.inl ⟨?_, fun before => ?_⟩)
      · rw [reached, if_pos hr, if_neg hd]
      · rw [sweep, if_pos hr]
        split_ifs with hshown
        · have hsame : sweepLevel P minSlice venues level before remaining = (before, remaining) :=
            if_pos (not_lt.mp fun ha => hd ⟨hshown, ha⟩)
          rw [hsame]
        · rfl
  · refine .inr (.inr ⟨?_, fun before => ?_⟩)
    · rw [reached, if_neg hr]
    · rw [sweep, if_neg hr]

variable (P minSlice venues v levels remaining allocations) in
theorem sweep_at :
    (sweep P minSlice venues levels allocations remaining).totalAt v =
        allocations.totalAt v +
          (sharesTo P minSlice venues v levels remaining + remaindersTo P minSlice venues v levels remaining) ∧
      (sweep P minSlice venues levels allocations remaining).markAt v =
        (lastPrice P minSlice venues v levels remaining).or (allocations.markAt v) := by
  unfold sharesTo remaindersTo lastPrice
  induction levels generalizing allocations remaining with
  | nil => exact ⟨(add_zero _).symm, rfl⟩
  | cons level levels ih =>
    obtain ⟨fill, hfill, -, hreached, hsweep⟩ | ⟨hreached, hsweep⟩ | ⟨hreached, hsweep⟩ :=
      sweep_cases P minSlice venues level levels remaining
    · obtain ⟨after, hjoins, hafter⟩ := hsweep allocations
      obtain ⟨htotal, hmark⟩ := hjoins v
      obtain ⟨hpart, hserved⟩ := levelPart_at P minSlice venues level v hfill
      obtain ⟨hrest, hlast⟩ := ih (remaining - filled P minSlice venues level fill) after
      rw [hreached, hafter, hrest, hlast, htotal, hmark, hpart, hserved]
      constructor
      · simp only [List.map_cons, List.sum_cons]
        omega
      · rw [List.filterMap_cons, ← Option.or_assoc]
        cases servedAt P minSlice venues v (level, fill) with
        | none => rw [Option.or_none]
        | some price => rw [List.getLast?_cons, Option.or_some]
    · rw [hreached, hsweep]
      exact ih remaining allocations
    · rw [hreached, hsweep]
      exact ⟨(add_zero _).symm, rfl⟩

section Kept

variable {p : Allocations → Prop} (hadd : ∀ l k m q, p l → p (Ledger.add k m q l))
include hadd

theorem allocate_keeps (price avail fill : ℤ) (vqs : List VenueQuantity) (acc : Allocations × ℤ) (h : p acc.1) :
    p (allocate P minSlice venues price avail fill vqs acc).1 := by
  induction vqs generalizing acc with
  | nil => exact h
  | cons vq vqs ih =>
    unfold allocate
    split_ifs
    · exact ih _ h
    · simp only
      split_ifs
      · exact ih _ h
      · exact ih _ (hadd _ _ _ _ h)
    · exact h

theorem assignRemainder_keeps (level : AggregatedLevel) (fill : ℤ) (acc : Allocations × ℤ) (h : p acc.1) :
    p (assignRemainder venues level fill acc).1 := by
  unfold assignRemainder
  split_ifs
  · exact hadd _ _ _ _ h
  · exact h

theorem sweep_keeps (ha : p allocations) : p (sweep P minSlice venues levels allocations remaining) := by
  induction levels generalizing allocations remaining with
  | nil => exact ha
  | cons level levels ih =>
    unfold sweep sweepLevel
    split_ifs
    · simp only
      split_ifs
      · exact ih ha
      · exact ih (assignRemainder_keeps hadd _ _ _ (allocate_keeps hadd _ _ _ _ _ ha))
    · exact ih ha
    · exact ha

end Kept

theorem sweep_nodup : (sweep P minSlice venues levels [] remaining).keys.Nodup :=
  sweep_keeps (p := fun l => l.keys.Nodup) (fun _ _ _ _ => Ledger.nodup_keys_add) List.nodup_nil

end Sweeping

section Shares

variable {P : Platform} {minSlice : ℤ} {venues : List VenueScore} {level : AggregatedLevel}
  {levels : List AggregatedLevel} {v : ℕ} {remaining fill : ℤ} {side : Side}

theorem shownBy_eq (v : ℕ) (level : AggregatedLevel) : shownBy v level = shown v level.venueBreakdown := rfl

theorem shownBy_nonneg (v : ℕ) (level : AggregatedLevel) : 0 ≤ shownBy v level := by
  rw [shownBy_eq]
  exact shown_nonneg _ _

theorem allocate_shares_le (price avail fill : ℤ) (vqs : List VenueQuantity) (acc : Allocations × ℤ) :
    (allocate P minSlice venues price avail fill vqs acc).1.totalAt v ≤ acc.1.totalAt v + shown v vqs := by
  induction vqs generalizing acc with
  | nil => exact (add_zero _).ge
  | cons vq vqs ih =>
    have hrest := shown_le_cons v vq vqs
    unfold allocate
    split_ifs with hlt hskip
    · exact (ih _).trans (by simpa using hrest)
    · simp only
      split_ifs
      · exact (ih _).trans (by simpa using hrest)
      · refine (ih _).trans ?_
        have hq := not_le.mp fun h => hskip (.inl h)
        have hcap : venueShare P vq.quantity avail fill acc.2 ≤ vq.quantity :=
          (min_le_left _ _).trans (min_le_right _ _)
        rw [Ledger.totalAt_add]
        split_ifs with hv
        · rw [shown_take hq hv.symm]
          omega
        · omega
    · have hnonneg := shown_nonneg v (vq :: vqs)
      simp only
      omega

variable (P minSlice venues) in
theorem shareOf_le (v : ℕ) (level : AggregatedLevel) (fill : ℤ) :
    shareOf P minSlice venues v (level, fill) ≤ shownBy v level := by
  calc shareOf P minSlice venues v (level, fill) ≤ 0 + shown v level.venueBreakdown := allocate_shares_le _ _ _ _ _
    _ = shownBy v level := by rw [zero_add, shownBy_eq]

theorem shareOf_of_unserved (h : servedAt P minSlice venues v (level, fill) = none) :
    shareOf P minSlice venues v (level, fill) = 0 := by
  unfold servedAt at h
  split_ifs at h with hserved
  exact Ledger.totalAt_of_not_mem fun hm => hserved (.inl hm)

theorem servedAt_price {s : AggregatedLevel × ℤ} {price : ℤ} (h : servedAt P minSlice venues v s = some price) :
    price = s.1.price := by
  unfold servedAt at h
  split_ifs at h
  exact (Option.some.inj h).symm

theorem shownTo_cons (side : Side) (level : AggregatedLevel) (levels : List AggregatedLevel) (v : ℕ) (price : ℤ) :
    shownTo side (level :: levels) v price =
      (if level.displayed ∧ Respects side price level.price then shownBy v level else 0) +
        shownTo side levels v price := by
  unfold shownTo
  by_cases h : level.displayed ∧ Respects side price level.price <;> simp [h]

theorem shownTo_nonneg (side : Side) (levels : List AggregatedLevel) (v : ℕ) (price : ℤ) :
    0 ≤ shownTo side levels v price := by
  apply List.sum_nonneg
  intro q hq
  obtain ⟨level, -, rfl⟩ := List.mem_map.mp hq
  exact shownBy_nonneg v level

/-- What is at most shown at each level is at most shown over all of them. -/
theorem sum_reached_le {get : AggregatedLevel × ℤ → ℤ} {price : ℤ}
    (hget : ∀ s ∈ reached P minSlice venues levels remaining, get s ≤ shownBy v s.1)
    (hnone : ∀ s, servedAt P minSlice venues v s = none → get s ≤ 0)
    (h : ∀ s ∈ reached P minSlice venues levels remaining,
      ∀ p ∈ servedAt P minSlice venues v s, Respects side price p) :
    ((reached P minSlice venues levels remaining).map get).sum ≤ shownTo side levels v price := by
  induction levels generalizing remaining with
  | nil => exact le_rfl
  | cons level levels ih =>
    have hcons := shownTo_cons side level levels v price
    have hshown := shownBy_nonneg v level
    have hnonneg := shownTo_nonneg side levels v price
    obtain ⟨fill, -, hd, hreached, -⟩ | ⟨hreached, -⟩ | ⟨hreached, -⟩ :=
      sweep_cases P minSlice venues level levels remaining
    · rw [hreached] at h hget ⊢
      obtain ⟨hfirst, hrest⟩ := List.forall_mem_cons.mp h
      obtain ⟨hcap, hcaps⟩ := List.forall_mem_cons.mp hget
      have hle := ih hcaps hrest
      rw [List.map_cons, List.sum_cons, hcons]
      have hcap : get (level, fill) ≤ shownBy v level := hcap
      cases hserved : servedAt P minSlice venues v (level, fill) with
      | none =>
        have hzero := hnone (level, fill) hserved
        split_ifs <;> omega
      | some p =>
        have hgood : Respects side price level.price := servedAt_price hserved ▸ hfirst p hserved
        rw [if_pos ⟨hd, hgood⟩]
        omega
    · rw [hreached] at h hget ⊢
      have hle := ih hget h
      rw [hcons]
      split_ifs <;> omega
    · rw [hreached, hcons]
      simp only [List.map_nil, List.sum_nil]
      split_ifs <;> omega

theorem reached_sublist : ((reached P minSlice venues levels remaining).map Prod.fst).Sublist levels := by
  induction levels generalizing remaining with
  | nil => exact .slnil
  | cons level levels ih =>
    obtain ⟨fill, -, -, hreached, -⟩ | ⟨hreached, -⟩ | ⟨hreached, -⟩ :=
      sweep_cases P minSlice venues level levels remaining
    · rw [hreached]
      exact ih.cons_cons level
    · rw [hreached]
      exact ih.cons level
    · rw [hreached]
      exact List.nil_sublist _

def InPriority (side : Side) (levels : List AggregatedLevel) : Prop :=
  levels.Pairwise fun a b => Respects side b.price a.price

/-- With levels in priority, a venue is served at its last price or at better ones. -/
theorem served_respects {price : ℤ} (hp : InPriority side levels)
    (hl : lastPrice P minSlice venues v levels remaining = some price) :
    ∀ s ∈ reached P minSlice venues levels remaining,
      ∀ p ∈ servedAt P minSlice venues v s, Respects side price p := by
  intro s hs p hserved
  have hmem : p ∈ (reached P minSlice venues levels remaining).filterMap (servedAt P minSlice venues v) :=
    List.mem_filterMap.mpr ⟨s, hs, hserved⟩
  have horder : ((reached P minSlice venues levels remaining).filterMap (servedAt P minSlice venues v)).Pairwise
      fun a b => Respects side b a := by
    apply List.pairwise_filterMap.mpr
    refine (List.pairwise_map.mp (hp.sublist reached_sublist)).imp fun h a ha b hb => ?_
    rwa [servedAt_price ha, servedAt_price hb]
  have hrefl : Std.Refl fun a b => Respects side b a := ⟨fun a => by cases side <;> exact le_rfl⟩
  have hlast := horder.rel_getLast hmem
  rwa [List.getLast_eq_iff_getLast?_eq_some (List.ne_nil_of_mem hmem) |>.mpr hl] at hlast

section Covering

variable {price avail allocated : ℤ} {allocations : Allocations}

theorem counted_cons (p : ℕ × ℤ) (ps : List (ℕ × ℤ)) :
    counted minSlice (p :: ps) = (if minSlice ≤ p.2 then p.2 else 0) + counted minSlice ps := by
  unfold counted
  by_cases h : minSlice ≤ p.2 <;> simp [h]

theorem partsOf_skip {vq : VenueQuantity} {vqs : List VenueQuantity}
    (h : ¬(vq.quantity > 0 ∧ available venues vq.venueId = true)) :
    partsOf P venues avail fill (vq :: vqs) = partsOf P venues avail fill vqs := by
  unfold partsOf
  rw [List.filter_cons_of_neg (by simpa using h)]

theorem partsOf_take {vq : VenueQuantity} {vqs : List VenueQuantity}
    (h : vq.quantity > 0 ∧ available venues vq.venueId = true) : partsOf P venues avail fill (vq :: vqs) =
      (vq.venueId, part P avail fill vq.quantity) :: partsOf P venues avail fill vqs := by
  unfold partsOf
  rw [List.filter_cons_of_pos (by simpa using h), List.map_cons]

theorem allocate_full (vqs : List VenueQuantity) (h : ¬allocated < fill) :
    allocate P minSlice venues price avail fill vqs (allocations, allocated) = (allocations, allocated) := by
  cases vqs with
  | nil => rfl
  | cons vq vqs => rw [allocate, if_neg h]

section Entry

variable {vq : VenueQuantity} {vqs : List VenueQuantity} (hlt : allocated < fill)
include hlt

theorem allocate_skip (h : ¬(vq.quantity > 0 ∧ available venues vq.venueId = true)) :
    allocate P minSlice venues price avail fill (vq :: vqs) (allocations, allocated) =
      allocate P minSlice venues price avail fill vqs (allocations, allocated) := by
  have hskipped : vq.quantity ≤ 0 ∨ (!available venues vq.venueId) = true := by
    obtain h | h := not_and_or.mp h
    · exact .inl (not_lt.mp h)
    · exact .inr (by simpa using h)
  rw [allocate, if_pos hlt, if_pos hskipped]

variable (heligible : vq.quantity > 0 ∧ available venues vq.venueId = true)
include heligible

theorem allocate_eligible : allocate P minSlice venues price avail fill (vq :: vqs) (allocations, allocated) =
    let share := min (part P avail fill vq.quantity) (fill - allocated)
    if share < minSlice ∧ share < fill - allocated then
      allocate P minSlice venues price avail fill vqs (allocations, allocated)
    else
      allocate P minSlice venues price avail fill vqs (allocations.add vq.venueId price share, allocated + share) := by
  have htaken : ¬(vq.quantity ≤ 0 ∨ (!available venues vq.venueId) = true) := by
    rintro (h | h)
    · exact absurd heligible.1 (not_lt.mpr h)
    · simp [heligible.2] at h
  rw [allocate, if_pos hlt, if_neg htaken]
  rfl

theorem allocate_last (h : fill - allocated ≤ part P avail fill vq.quantity) :
    (allocate P minSlice venues price avail fill (vq :: vqs) (allocations, allocated)).2 = fill := by
  rw [allocate_eligible hlt heligible, min_eq_right h]
  simp only [lt_irrefl, and_false, if_false]
  rw [allocate_full vqs (by omega)]
  exact add_sub_cancel _ _

variable (hmore : part P avail fill vq.quantity < fill - allocated)
include hmore

theorem allocate_dust (h : part P avail fill vq.quantity < minSlice) :
    allocate P minSlice venues price avail fill (vq :: vqs) (allocations, allocated) =
      allocate P minSlice venues price avail fill vqs (allocations, allocated) := by
  rw [allocate_eligible hlt heligible, min_eq_left hmore.le]
  exact if_pos ⟨h, hmore⟩

theorem allocate_counted (h : minSlice ≤ part P avail fill vq.quantity) :
    allocate P minSlice venues price avail fill (vq :: vqs) (allocations, allocated) =
      allocate P minSlice venues price avail fill vqs
        (allocations.add vq.venueId price (part P avail fill vq.quantity),
          allocated + part P avail fill vq.quantity) := by
  rw [allocate_eligible hlt heligible, min_eq_left hmore.le]
  exact if_neg fun hdust => absurd h (not_le.mpr hdust.1)

end Entry

variable (P minSlice venues price avail allocations) in
/-- The pass over the venues in numbers of the book: a part finishes the level, or all of them but dust are given. -/
theorem allocate_parts (hlt : allocated < fill) (vqs : List VenueQuantity) :
    let pass := allocate P minSlice venues price avail fill vqs (allocations, allocated)
    let ps := partsOf P venues avail fill vqs
    (Finishes minSlice ps (fill - allocated) → pass.2 = fill) ∧
      (¬Finishes minSlice ps (fill - allocated) → pass.2 = allocated + counted minSlice ps ∧
        ∀ v, pass.1.totalAt v = allocations.totalAt v + counted minSlice (ps.filter (·.1 = v))) := by
  induction vqs generalizing allocations allocated with
  | nil => exact ⟨False.elim, fun _ => ⟨(add_zero _).symm, fun v => (add_zero _).symm⟩⟩
  | cons vq vqs ih =>
    by_cases heligible : vq.quantity > 0 ∧ available venues vq.venueId = true
    case neg =>
      rw [partsOf_skip heligible, allocate_skip hlt heligible]
      exact ih allocations hlt
    rw [partsOf_take heligible]
    simp only [counted_cons, Finishes]
    by_cases hlast : fill - allocated ≤ part P avail fill vq.quantity
    · exact ⟨fun _ => allocate_last hlt heligible hlast, fun hnot => absurd (.inl hlast) hnot⟩
    · have hmore := not_le.mp hlast
      rw [or_iff_right hlast]
      by_cases hdust : minSlice ≤ part P avail fill vq.quantity
      · have hroom : allocated + part P avail fill vq.quantity < fill := by omega
        obtain ⟨hfull, hpart⟩ := ih (allocations.add vq.venueId price (part P avail fill vq.quantity)) hroom
        rw [allocate_counted hlt heligible hmore hdust, if_pos hdust, if_pos hdust]
        rw [← sub_sub] at hfull hpart
        refine ⟨hfull, fun hnot => ?_⟩
        obtain ⟨hsum, hat⟩ := hpart hnot
        refine ⟨by omega, fun v => ?_⟩
        rw [hat, Ledger.totalAt_add]
        by_cases hv : vq.venueId = v
        · rw [if_pos hv, List.filter_cons_of_pos (by simpa using hv), counted_cons, if_pos hdust, add_assoc]
        · rw [if_neg hv, List.filter_cons_of_neg (by simpa using hv), add_zero]
      · obtain ⟨hfull, hpart⟩ := ih allocations hlt
        rw [allocate_dust hlt heligible hmore (not_le.mp hdust), if_neg hdust, if_neg hdust, zero_add]
        refine ⟨hfull, fun hnot => ?_⟩
        obtain ⟨hsum, hat⟩ := hpart hnot
        refine ⟨hsum, fun v => ?_⟩
        rw [hat]
        by_cases hv : vq.venueId = v
        · rw [List.filter_cons_of_pos (by simpa using hv), counted_cons, if_neg hdust, zero_add]
        · rw [List.filter_cons_of_neg (by simpa using hv)]

variable (minSlice) in
theorem counted_split (v : ℕ) (ps : List (ℕ × ℤ)) : counted minSlice ps =
    counted minSlice (ps.filter (·.1 = v)) + counted minSlice (ps.filter (·.1 ≠ v)) := by
  induction ps with
  | nil => rfl
  | cons p ps ih =>
    by_cases hv : p.1 = v
    · rw [List.filter_cons_of_pos (by simpa using hv), List.filter_cons_of_neg (by simpa using hv), counted_cons,
        counted_cons, ih, add_assoc]
    · rw [List.filter_cons_of_neg (by simpa using hv), List.filter_cons_of_pos (by simpa using hv), counted_cons,
        counted_cons, ih, add_left_comm]

variable (P minSlice venues level) in
theorem leftOver_eq (hf : 0 < fill) : leftOver P minSlice venues level fill =
    if Finishes minSlice (parts P venues level fill) fill then 0
    else fill - counted minSlice (parts P venues level fill) := by
  obtain ⟨hfull, hpart⟩ := allocate_parts P minSlice venues level.price (levelAvailable venues level) [] hf
    level.venueBreakdown
  rw [sub_zero] at hfull hpart
  unfold leftOver proRataPass
  split_ifs with h
  · rw [hfull h, sub_self]
  · rw [(hpart h).1, zero_add]
    rfl

theorem filled_eq_taken (hf : 0 < fill) :
    filled P minSlice venues level fill = taken P minSlice venues level fill := by
  unfold filled taken
  rw [leftOver_eq P minSlice venues level hf]
  by_cases hbest : bestVenue venues level = 0
  · by_cases h : Finishes minSlice (parts P venues level fill) fill
    · simp [hbest, h]
    · simp [hbest, h]
  · simp [hbest]

variable (P minSlice venues levels remaining) in
theorem reached_eq_comesTo : reached P minSlice venues levels remaining = comesTo P minSlice venues levels remaining := by
  induction levels generalizing remaining with
  | nil => rfl
  | cons level levels ih =>
    unfold reached comesTo
    split_ifs with hr hd
    · simp only
      rw [ih, filled_eq_taken (lt_min hr hd.2)]
    · exact ih remaining
    · rfl

theorem comesTo_pos : ∀ s ∈ comesTo P minSlice venues levels remaining, 0 < s.2 := by
  induction levels generalizing remaining with
  | nil => exact nofun
  | cons level levels ih =>
    unfold comesTo
    split_ifs with hr hd
    · exact List.forall_mem_cons.mpr ⟨lt_min hr hd.2, ih⟩
    · exact ih
    · exact nofun

/-- Where no part finishes the level, the largest venue gets all that the parts of the others leave. -/
theorem gets_bestVenue (hf : 0 < fill) (hbest : bestVenue venues level ≠ 0)
    (h : ¬Finishes minSlice (parts P venues level fill) fill) :
    shareOf P minSlice venues (bestVenue venues level) (level, fill) +
        remainderOf P minSlice venues (bestVenue venues level) (level, fill) =
      fill - counted minSlice ((parts P venues level fill).filter (·.1 ≠ bestVenue venues level)) := by
  have hsplit := counted_split minSlice (bestVenue venues level) (parts P venues level fill)
  obtain ⟨-, hpart⟩ := allocate_parts P minSlice venues level.price (levelAvailable venues level) [] hf
    level.venueBreakdown
  rw [sub_zero] at hpart
  have hown : shareOf P minSlice venues (bestVenue venues level) (level, fill) =
      0 + counted minSlice ((parts P venues level fill).filter (·.1 = bestVenue venues level)) := (hpart h).2 _
  have hrest : remainderOf P minSlice venues (bestVenue venues level) (level, fill) =
      fill - counted minSlice (parts P venues level fill) := by
    unfold remainderOf
    rw [if_pos ⟨rfl, hbest⟩, leftOver_eq P minSlice venues level hf, if_neg h]
  omega

variable (v) in
/-- At a covered level no venue is given more than it shows there. -/
theorem gets_le (hf : 0 < fill) (hc : Covered P minSlice venues level fill) :
    shareOf P minSlice venues v (level, fill) + remainderOf P minSlice venues v (level, fill) ≤ shownBy v level := by
  have hshare := shareOf_le P minSlice venues v level fill
  by_cases hbest : bestVenue venues level = v ∧ v ≠ 0
  · obtain ⟨rfl, hne⟩ := hbest
    by_cases h : Finishes minSlice (parts P venues level fill) fill
    · unfold remainderOf
      rw [if_pos ⟨rfl, hne⟩, leftOver_eq P minSlice venues level hf, if_pos h]
      omega
    · have hfill := (hc.resolve_left hne).resolve_left h
      rw [gets_bestVenue hf hne h]
      omega
  · unfold remainderOf
    rw [if_neg hbest]
    omega

theorem gets_of_unserved {s : AggregatedLevel × ℤ} (h : servedAt P minSlice venues v s = none) :
    shareOf P minSlice venues v s + remainderOf P minSlice venues v s ≤ 0 := by
  have hshare : shareOf P minSlice venues v (s.1, s.2) = 0 := shareOf_of_unserved h
  unfold servedAt at h
  split_ifs at h with hserved
  have hremainder := not_lt.mp (not_or.mp hserved).2
  have hsum : shareOf P minSlice venues v s = 0 := hshare
  omega

end Covering

theorem mergeLevels_ordered {opposite : Side} {sorted : List TaggedLevel} {out : List AggregatedLevel}
    (hs : sorted.Pairwise fun a b => worth opposite b.price ≤ worth opposite a.price)
    (hout : out.Pairwise fun a b => worth opposite a.price ≤ worth opposite b.price)
    (hle : ∀ tl ∈ sorted, ∀ level ∈ out, worth opposite tl.price ≤ worth opposite level.price) :
    (mergeLevels sorted out).Pairwise fun a b => worth opposite a.price ≤ worth opposite b.price := by
  induction sorted generalizing out with
  | nil => exact hout
  | cons tl rest ih =>
    obtain ⟨hhead, hrest⟩ := List.pairwise_cons.mp hs
    obtain ⟨hnew, hlater⟩ := List.forall_mem_cons.mp hle
    cases out with
    | nil =>
      refine ih hrest (List.pairwise_singleton _ _) fun x hx level hlevel => ?_
      rw [List.mem_singleton.mp hlevel, addVenue_price]
      exact hhead x hx
    | cons last out =>
      obtain ⟨hlast, hout'⟩ := List.pairwise_cons.mp hout
      unfold mergeLevels
      split_ifs
      · refine ih hrest (List.pairwise_cons.mpr ⟨fun level hlevel => ?_, hout'⟩) fun x hx => ?_
        · rw [addVenue_price]
          exact hlast level hlevel
        · obtain ⟨hback, hbefore⟩ := List.forall_mem_cons.mp (hlater x hx)
          refine List.forall_mem_cons.mpr ⟨?_, hbefore⟩
          rw [addVenue_price]
          exact hback
      · exact hout
      · refine ih hrest (List.pairwise_cons.mpr ⟨fun level hlevel => ?_, hout⟩) fun x hx => ?_
        · rw [addVenue_price]
          exact hnew level hlevel
        · refine List.forall_mem_cons.mpr ⟨?_, hlater x hx⟩
          rw [addVenue_price]
          exact hhead x hx

/-- The aggregator's books are in priority, so that only what is left over can go beyond them. -/
theorem getAggregatedBook_inPriority (md : MarketDataAggregator) (symbol : Symbol) :
    InPriority side ((md.getAggregatedBook P symbol).opposite side) := by
  have hordered (opposite : Side) :
      (md.aggregatedSide P symbol opposite).Pairwise fun a b => worth opposite b.price ≤ worth opposite a.price := by
    obtain ⟨sorted, hmerged, -, hsorted⟩ := aggregatedSide_eq md symbol opposite P
    rw [hmerged]
    exact List.pairwise_reverse.mpr (mergeLevels_ordered hsorted .nil nofun)
  cases side with
  | buy => exact (hordered .sell).imp fun h => neg_le_neg_iff.mp h
  | sell => exact hordered .buy

end Shares

section Main

variable {P P' : Platform} {minSlice : ℤ} {venues : List VenueScore} {levels : List AggregatedLevel} {remaining : ℤ}

theorem sweep_congr (h : P'.round = P.round) (allocations : Allocations) :
    sweep P' minSlice venues levels allocations remaining = sweep P minSlice venues levels allocations remaining := by
  have hproduct : proRata P' = proRata P := by
    funext v quantity available fill
    simp only [proRata, Platform.ofInt, Platform.mul, Platform.div, h]
  rw [sweep_eq 0, sweep_eq 0, hproduct]

theorem sweep_nil (levels : List AggregatedLevel) (allocations : Allocations) (remaining : ℤ) :
    sweep P minSlice [] levels allocations remaining = allocations := by
  induction levels generalizing remaining with
  | nil => rfl
  | cons level levels ih =>
    have hsame : sweepLevel P minSlice [] level allocations remaining = (allocations, remaining) := by
      unfold sweepLevel
      simp [levelAvailable, available, findScore]
    rw [sweep, hsame]
    simp only [ih, ite_self]

variable {order : Order} {nbbo : Nbbo} {book : AggregatedBook}

theorem route_of_valid (h : P'.round = P.round)
    (hvalid : nbbo.valid = true) : route P' minSlice order nbbo book venues =
      (sweep P minSlice venues (book.opposite order.side) [] order.leavesQty).decision P'
        (fun total => !decide (total < minSlice)) order.side := by
  have hempty : (Allocations.decision P' (fun total => !decide (total < minSlice)) order.side []) = {} := by
    have hiterate : P'.iterate ([] : Allocations) = [] := (P'.iterate_perm _).eq_nil
    have hsorted : sortSlices P' order.side [] = [] := (sortSlices_perm P' order.side []).eq_nil
    simp only [Allocations.decision, hiterate, List.filter_nil, List.take_nil, List.map_nil, hsorted]
  unfold route
  split_ifs with hnone hdone
  · have hnil : venues = [] := by simpa [hvalid] using hnone
    rw [hnil, sweep_nil, hempty]
  · have hsame : sweep P minSlice venues (book.opposite order.side) [] order.leavesQty = [] := by
      cases book.opposite order.side with
      | nil => rfl
      | cons level levels => exact if_neg (not_lt.mpr hdone)
    rw [hsame, hempty]
  · rw [sweep_congr h]

def startingAt (P : Platform) (n : ℕ) : Platform where
  round := P.round
  round_nonneg := P.round_nonneg
  iterate l := l.rotate n
  iterate_perm l := List.rotate_perm l n
  sort := P.sort
  sort_perm := P.sort_perm
  sort_sorted := P.sort_sorted

variable (P) in
theorem exists_slice (side : Side) {allocations : Allocations} {a : LedgerEntry ℕ ℤ ℤ} (ha : a ∈ allocations)
    (hkeep : minSlice ≤ a.total) : ∃ n, ∃ s ∈ (allocations.decision (startingAt P n)
      (fun total => !decide (total < minSlice)) side).slices,
        s.venueId = a.key ∧ s.price = a.mark ∧ s.quantity = a.total := by
  obtain ⟨n, hn, rfl⟩ := List.getElem_of_mem ha
  refine ⟨n, { venueId := allocations[n].key, price := allocations[n].mark, quantity := allocations[n].total },
    (sortSlices_perm _ _ _).mem_iff.mpr ?_, rfl, rfl, rfl⟩
  have hfirst : (startingAt P n).iterate allocations =
      allocations[n] :: (allocations.drop (n + 1) ++ allocations.take n) := by
    change allocations.rotate n = _
    rw [List.rotate_eq_drop_append_take hn.le, List.drop_eq_getElem_cons hn, List.cons_append]
  apply List.mem_map.mpr
  refine ⟨allocations[n], ?_, rfl⟩
  rw [hfirst, List.filter_cons_of_pos (by simpa using hkeep)]
  exact List.mem_cons_self

/-- A slice for each venue that is given enough, with what its shares and the remainders come to. -/
theorem within_iff_account (P : Platform) (minSlice : ℤ) (order : Order) (nbbo : Nbbo) (book : AggregatedBook)
    (venues : List VenueScore) :
    (∀ P' : Platform, P'.round = P.round → ∀ s ∈ (route P' minSlice order nbbo book venues).slices,
      WithinDisplay order.side (book.opposite order.side) s) ↔
    (nbbo.valid = true → ∀ v price,
      let levels := book.opposite order.side
      let shares := sharesTo P minSlice venues v levels order.leavesQty
      let remainders := remaindersTo P minSlice venues v levels order.leavesQty
      lastPrice P minSlice venues v levels order.leavesQty = some price → minSlice ≤ shares + remainders →
        remainders ≤ shownTo order.side levels v price - shares) := by
  have hat := fun v => sweep_at P minSlice venues (book.opposite order.side) v order.leavesQty []
  have hnodup : (sweep P minSlice venues (book.opposite order.side) [] order.leavesQty).keys.Nodup := sweep_nodup
  have hroute (P' : Platform) (hP : P'.round = P.round) (hvalid : nbbo.valid = true) :
      route P' minSlice order nbbo book venues =
        (sweep P minSlice venues (book.opposite order.side) [] order.leavesQty).decision P'
          (fun total => !decide (total < minSlice)) order.side := route_of_valid hP hvalid
  constructor
  · intro h hvalid v price levels shares remainders hlast hkeep
    obtain ⟨htotal, hmark⟩ := hat v
    rw [hlast, Option.some_or] at hmark
    obtain ⟨a, ha, rfl, rfl⟩ := Ledger.exists_of_markAt hmark
    rw [Ledger.totalAt_of_mem hnodup ha] at htotal
    have hsum : a.total = shares + remainders := htotal.trans (zero_add _)
    obtain ⟨n, s, hs, hvenue, hprice, hquantity⟩ := exists_slice P order.side ha (hsum ▸ hkeep)
    rw [← hroute (startingAt P n) rfl hvalid] at hs
    have hwithin := h (startingAt P n) rfl s hs
    unfold WithinDisplay at hwithin
    rw [hvenue, hprice, hquantity, hsum] at hwithin
    exact le_sub_iff_add_le'.mpr hwithin
  · intro h P' hP s hs
    cases hvalid : nbbo.valid with
    | false => simp [route, hvalid] at hs
    | true =>
      rw [hroute P' hP hvalid] at hs
      obtain ⟨a, ha, hworth, hvenue, hprice, hquantity⟩ := Allocations.exists_of_slice hs
      obtain ⟨htotal, hmark⟩ := hat a.key
      rw [Ledger.totalAt_of_mem hnodup ha] at htotal
      rw [Ledger.markAt_of_mem hnodup ha] at hmark
      rw [show Ledger.markAt a.key ([] : Allocations) = none from rfl, Option.or_none] at hmark
      have hsum := htotal.trans (zero_add _)
      have hkeep : minSlice ≤ a.total := by simpa using hworth
      have hwithin := h hvalid a.key a.mark hmark.symm (hsum ▸ hkeep)
      unfold WithinDisplay
      rw [hvenue, hprice, hquantity, hsum]
      exact le_sub_iff_add_le'.mp hwithin

theorem sums_add (v : ℕ) :
    sharesTo P minSlice venues v levels remaining + remaindersTo P minSlice venues v levels remaining =
      ((reached P minSlice venues levels remaining).map fun s =>
        shareOf P minSlice venues v s + remainderOf P minSlice venues v s).sum := by
  unfold sharesTo remaindersTo
  rw [List.sum_map_add]

/-- Slices stay within what their venues show where every level that the order comes to is covered. An order for one
level stays within it in no other case. -/
theorem slices_within_of_covered (P : Platform) (minSlice : ℤ) (order : Order) (nbbo : Nbbo) (book : AggregatedBook)
    (venues : List VenueScore) :
    let levels := book.opposite order.side
    let within := ∀ P' : Platform, P'.round = P.round → ∀ s ∈ (route P' minSlice order nbbo book venues).slices,
      WithinDisplay order.side levels s
    (InPriority order.side levels →
      (∀ s ∈ comesTo P minSlice venues levels order.leavesQty, Covered P minSlice venues s.1 s.2) → within) ∧
    (nbbo.valid = true → minSlice ≤ 1 → ∀ level fill,
      comesTo P minSlice venues levels order.leavesQty = [(level, fill)] →
        shownTo order.side levels (bestVenue venues level) level.price = shownBy (bestVenue venues level) level →
          within → Covered P minSlice venues level fill) := by
  intro levels within
  have hiff : within ↔ _ := within_iff_account P minSlice order nbbo book venues
  constructor
  · intro hp hcovered
    apply hiff.mpr
    intro hvalid v price levels shares remainders hlast hkeep
    rw [← reached_eq_comesTo] at hcovered
    have hpos : ∀ s ∈ reached P minSlice venues levels order.leavesQty, 0 < s.2 := by
      rw [reached_eq_comesTo]
      exact comesTo_pos
    have hle : _ ≤ shownTo order.side (book.opposite order.side) v price :=
      sum_reached_le (fun s hs => gets_le v (hpos s hs) (hcovered s hs)) (fun s hs => gets_of_unserved hs)
        (served_respects hp hlast)
    rw [← sums_add] at hle
    exact le_sub_iff_add_le'.mpr hle
  · intro hvalid hmin level fill hone hshown hwithin
    by_contra hnot
    obtain ⟨hbest, hnot⟩ := not_or.mp hnot
    obtain ⟨hfinishes, hbeyond⟩ := not_or.mp hnot
    have hreached := reached_eq_comesTo P minSlice venues levels order.leavesQty
    rw [hone] at hreached
    have hf : 0 < fill := comesTo_pos (level, fill) (hone ▸ List.mem_singleton_self _)
    have hgets := gets_bestVenue hf hbest hfinishes
    have hshare := shareOf_le P minSlice venues (bestVenue venues level) level fill
    have hshows := shownBy_nonneg (bestVenue venues level) level
    have hlast : lastPrice P minSlice venues (bestVenue venues level) levels order.leavesQty = some level.price := by
      have hserved : servedAt P minSlice venues (bestVenue venues level) (level, fill) = some level.price :=
        if_pos (.inr (by omega))
      unfold lastPrice
      rw [hreached, List.filterMap_cons, hserved]
      rfl
    have hshares : sharesTo P minSlice venues (bestVenue venues level) levels order.leavesQty =
        shareOf P minSlice venues (bestVenue venues level) (level, fill) := by
      unfold sharesTo
      rw [hreached, List.map_singleton, List.sum_singleton]
    have hremainders : remaindersTo P minSlice venues (bestVenue venues level) levels order.leavesQty =
        remainderOf P minSlice venues (bestVenue venues level) (level, fill) := by
      unfold remaindersTo
      rw [hreached, List.map_singleton, List.sum_singleton]
    have hroom : remaindersTo P minSlice venues (bestVenue venues level) levels order.leavesQty ≤
        shownTo order.side levels (bestVenue venues level) level.price -
          sharesTo P minSlice venues (bestVenue venues level) levels order.leavesQty := by
      apply hiff.mp hwithin hvalid (bestVenue venues level) level.price hlast
      change minSlice ≤ sharesTo P minSlice venues (bestVenue venues level) levels order.leavesQty +
        remaindersTo P minSlice venues (bestVenue venues level) levels order.leavesQty
      omega
    omega

def threeLevel : AggregatedLevel :=
  { price := 150, totalQuantity := 30, venueBreakdown := [⟨1, 10⟩, ⟨2, 10⟩, ⟨3, 10⟩] }

def threeVenues : AggregatedBook where
  asks := [threeLevel]
  bids := []
  bidsFit := Nat.zero_le maxDepth

def threeScores : List VenueScore := [{ venueId := 1 }, { venueId := 2 }, { venueId := 3 }]

def threeNbbo : Nbbo := { bestBid := 149, bestBidQty := 10, bestAsk := 150, bestAskQty := 30 }

/-- All of the thirty on show are covered, and of twenty-nine the two that rounding leaves over are not. -/
theorem slices_within_of_covered_three :
    (∀ P' : Platform, P'.round = Platform.exact.round →
      ∀ s ∈ (route P' 1 { price := 155, quantity := 30 } threeNbbo threeVenues threeScores).slices,
        WithinDisplay .buy threeVenues.asks s) ∧
    ¬∀ P' : Platform, P'.round = Platform.exact.round →
      ∀ s ∈ (route P' 1 { price := 155, quantity := 29 } threeNbbo threeVenues threeScores).slices,
        WithinDisplay .buy threeVenues.asks s := by
  constructor
  · apply (slices_within_of_covered .exact 1 { price := 155, quantity := 30 } threeNbbo threeVenues threeScores).1
    · exact List.pairwise_singleton _ _
    · decide +kernel
  · intro hwithin
    have hcovered := (slices_within_of_covered .exact 1 { price := 155, quantity := 29 } threeNbbo threeVenues
      threeScores).2 (by decide) (by decide) threeLevel 29 rfl (by decide +kernel) hwithin
    revert hcovered
    decide +kernel

/-- Twenty-nine of the thirty on show: each venue's share rounds down to nine, and the first gets the
other two on top. -/
theorem slice_beyond_display :
    let order : Order := { price := 155, quantity := 29 }
    let slices := (route .exact 1 order threeNbbo threeVenues threeScores).slices
    slices.map (fun s => (s.venueId, s.quantity)) = [(1, 11), (2, 9), (3, 9)] ∧
      ¬∀ s ∈ slices, WithinDisplay order.side threeVenues.asks s := by
  decide +kernel

end Main

end Klett.Sor.LiquiditySweep
