import Klett.Sor.Routing

namespace Klett.Sor.LiquiditySweep

open Klett.Lib

variable (P : Platform)

def levelAvailable (venues : List VenueScore) (level : AggregatedLevel) : ℤ :=
  ((level.venueBreakdown.filter fun vq => vq.quantity > 0 && available venues vq.venueId).map
    VenueQuantity.quantity).sum

/-- A venue's pro-rata share of what the level is to fill, capped at what it shows and at what
the level still needs. -/
def venueShare (quantity levelAvailable levelFill levelAllocated : ℤ) : ℤ :=
  let share := Platform.truncate
    (P.mul (P.div (P.ofInt quantity) (P.ofInt levelAvailable)) (P.ofInt levelFill))
  min (min share quantity) (levelFill - levelAllocated)

def allocate (minSlice : ℤ) (venues : List VenueScore) (price levelAvailable levelFill : ℤ) :
    List VenueQuantity → Allocations × ℤ → Allocations × ℤ
  | [], acc => acc
  | vq :: vqs, (allocations, levelAllocated) =>
    if levelAllocated < levelFill then
      if vq.quantity ≤ 0 ∨ !available venues vq.venueId then
        allocate minSlice venues price levelAvailable levelFill vqs (allocations, levelAllocated)
      else
        let share := venueShare P vq.quantity levelAvailable levelFill levelAllocated
        if share < minSlice ∧ share < levelFill - levelAllocated then
          allocate minSlice venues price levelAvailable levelFill vqs (allocations, levelAllocated)
        else
          allocate minSlice venues price levelAvailable levelFill vqs
            (allocations.add vq.venueId price share, levelAllocated + share)
    else (allocations, levelAllocated)

def bestVenue (venues : List VenueScore) (level : AggregatedLevel) : ℕ :=
  (level.venueBreakdown.foldl (fun best vq =>
    if vq.quantity > best.2 && available venues vq.venueId then (vq.venueId, vq.quantity) else best)
    (0, 0)).1

def assignRemainder (venues : List VenueScore) (level : AggregatedLevel) (levelFill : ℤ)
    (pass : Allocations × ℤ) : Allocations × ℤ :=
  if pass.2 < levelFill ∧ bestVenue venues level ≠ 0 then
    (pass.1.add (bestVenue venues level) level.price (levelFill - pass.2), levelFill)
  else pass

def sweepLevel (minSlice : ℤ) (venues : List VenueScore) (level : AggregatedLevel)
    (allocations : Allocations) (remaining : ℤ) : Allocations × ℤ :=
  let total := levelAvailable venues level
  if total ≤ 0 then (allocations, remaining)
  else
    let levelFill := min remaining total
    let pass := allocate P minSlice venues level.price total levelFill level.venueBreakdown
      (allocations, 0)
    let done := assignRemainder venues level levelFill pass
    (done.1, remaining - done.2)

def sweep (minSlice : ℤ) (venues : List VenueScore) :
    List AggregatedLevel → Allocations → ℤ → Allocations
  | [], allocations, _ => allocations
  | level :: levels, allocations, remaining =>
    if remaining > 0 then
      if level.displayed then
        let next := sweepLevel P minSlice venues level allocations remaining
        sweep minSlice venues levels next.1 next.2
      else sweep minSlice venues levels allocations remaining
    else allocations

def route (minSlice : ℤ) (order : Order) (nbbo : Nbbo) (book : AggregatedBook)
    (venues : List VenueScore) : RoutingDecision :=
  if venues.isEmpty ∨ !nbbo.valid then {}
  else if order.leavesQty ≤ 0 then {}
  else
    let allocations := sweep P minSlice venues (book.opposite order.side) [] order.leavesQty
    allocations.decision P (fun total => !decide (total < minSlice)) order.side

variable {P} {minSlice : ℤ} {venues : List VenueScore} {order : Order} {nbbo : Nbbo}
  {book : AggregatedBook} {level : AggregatedLevel}

theorem exists_of_levelAvailable_pos (h : 0 < levelAvailable venues level) :
    ∃ vq ∈ level.venueBreakdown, 0 < vq.quantity := by
  unfold levelAvailable at h
  cases hf : level.venueBreakdown.filter fun vq => vq.quantity > 0 && available venues vq.venueId with
  | nil => simp [hf] at h
  | cons vq vqs =>
    have hm : vq ∈ level.venueBreakdown.filter
        fun vq => vq.quantity > 0 && available venues vq.venueId := by
      rw [hf]
      exact List.mem_cons_self
    obtain ⟨hmem, hq⟩ := List.mem_filter.mp hm
    exact ⟨vq, hmem, by simpa using (Bool.and_eq_true_iff.mp hq).1⟩

theorem levelAvailable_nonneg (venues : List VenueScore) (level : AggregatedLevel) :
    0 ≤ levelAvailable venues level := by
  apply List.sum_nonneg
  intro q hq
  obtain ⟨vq, hvq, rfl⟩ := List.mem_map.mp hq
  have hpos := (Bool.and_eq_true_iff.mp (List.mem_filter.mp hvq).2).1
  exact (of_decide_eq_true hpos).le

section Shown

variable {v : ℕ} {vq : VenueQuantity} {vqs : List VenueQuantity}

def shown (v : ℕ) (vqs : List VenueQuantity) : ℤ :=
  ((vqs.filter fun vq => vq.quantity > 0 && vq.venueId = v).map VenueQuantity.quantity).sum

theorem shown_skip (h : vq.quantity ≤ 0 ∨ v ≠ vq.venueId) : shown v (vq :: vqs) = shown v vqs := by
  rcases h with h | h
  · simp [shown, not_lt.mpr h]
  · simp [shown, h.symm]

theorem shown_take (hq : 0 < vq.quantity) (hv : v = vq.venueId) :
    shown v (vq :: vqs) = vq.quantity + shown v vqs := by
  simp [shown, hq, hv]

theorem shown_nonneg (v : ℕ) (vqs : List VenueQuantity) : 0 ≤ shown v vqs := by
  apply List.sum_nonneg
  intro q hq
  obtain ⟨vq, hvq, rfl⟩ := List.mem_map.mp hq
  have hpos := (List.mem_filter.mp hvq).2
  simp only [Bool.and_eq_true, decide_eq_true_eq] at hpos
  exact hpos.1.le

theorem shown_le_cons (v : ℕ) (vq : VenueQuantity) (vqs : List VenueQuantity) :
    shown v vqs ≤ shown v (vq :: vqs) := by
  by_cases h : 0 < vq.quantity ∧ v = vq.venueId
  · rw [shown_take h.1 h.2]
    omega
  · rw [shown_skip ((not_and_or.mp h).imp_left not_lt.mp)]

end Shown

section Marks

variable {p : ℤ → Prop} {allocations : Allocations} {price avail fill allocated : ℤ}

theorem allocate_marks {vqs : List VenueQuantity} (hp : p price) (ha : ∀ a ∈ allocations, p a.mark) :
    ∀ a ∈ (allocate P minSlice venues price avail fill vqs (allocations, allocated)).1, p a.mark := by
  induction vqs generalizing allocations allocated with
  | nil => exact ha
  | cons vq vqs ih =>
    unfold allocate
    split_ifs
    · exact ih ha
    · simp only
      split_ifs
      · exact ih ha
      · exact ih (Ledger.marks_add hp ha)
    · exact ha

theorem assignRemainder_marks {acc : Allocations × ℤ} (hp : p level.price)
    (ha : ∀ a ∈ acc.1, p a.mark) : ∀ a ∈ (assignRemainder venues level fill acc).1, p a.mark := by
  unfold assignRemainder
  split_ifs
  · exact Ledger.marks_add hp ha
  · exact ha

theorem sweepLevel_marks {remaining : ℤ} (hp : 0 < levelAvailable venues level → p level.price)
    (ha : ∀ a ∈ allocations, p a.mark) :
    ∀ a ∈ (sweepLevel P minSlice venues level allocations remaining).1, p a.mark := by
  unfold sweepLevel
  simp only
  split_ifs with h
  · exact ha
  · have hprice := hp (not_le.mp h)
    exact assignRemainder_marks hprice (allocate_marks hprice ha)

theorem sweep_marks {levels : List AggregatedLevel} {remaining : ℤ}
    (hp : ∀ price, Offered levels price → p price) (ha : ∀ a ∈ allocations, p a.mark) :
    ∀ a ∈ sweep P minSlice venues levels allocations remaining, p a.mark := by
  induction levels generalizing allocations remaining with
  | nil => exact ha
  | cons level levels ih =>
    have hrest := fun price (h : Offered levels price) => hp price (h.cons level)
    unfold sweep
    split_ifs with hrem hd
    · refine ih hrest (sweepLevel_marks (fun havail => ?_) ha)
      obtain ⟨vq, hvq, hq⟩ := exists_of_levelAvailable_pos havail
      exact hp _ (.of_mem List.mem_cons_self hd hvq hq)
    · exact ih hrest ha
    · exact ha

end Marks

section Totals

variable {allocations : Allocations} {price avail fill allocated remaining : ℤ}

theorem venueShare_nonneg {q : ℤ} (hq : 0 ≤ q) (ha : 0 ≤ avail) (hf : 0 ≤ fill)
    (hl : allocated ≤ fill) : 0 ≤ venueShare P q avail fill allocated := by
  have hshare := Platform.truncate_nonneg
    (P.nonneg_mul (P.nonneg_div (P.nonneg_ofInt hq) (P.nonneg_ofInt ha)) (P.nonneg_ofInt hf))
  simp only [venueShare, le_min_iff]
  exact ⟨⟨hshare, hq⟩, by omega⟩

theorem venueShare_whole (allocated : ℤ) {q avail : ℤ} (ha : 0 < avail) (hq : q ≤ avail - allocated) :
    venueShare .exact q avail avail allocated = q := by
  have hne : (avail : ℚ) ≠ 0 := by exact_mod_cast ha.ne'
  have hshare : Platform.exact.mul (Platform.exact.div (Platform.exact.ofInt q)
      (Platform.exact.ofInt avail)) (Platform.exact.ofInt avail) = (q : ℚ) :=
    div_mul_cancel₀ _ hne
  unfold venueShare
  simp only [hshare, Platform.truncate_intCast, min_self]
  exact min_eq_left hq

variable (P avail fill allocated) in
theorem venueShare_le (q : ℤ) : venueShare P q avail fill allocated ≤ fill - allocated :=
  min_le_right _ _

structure Passed (fill : ℤ) (before after : Allocations × ℤ) : Prop where
  nonneg : ∀ a ∈ after.1, 0 ≤ a.total
  sum : after.1.sum - after.2 = before.1.sum - before.2
  grows : before.2 ≤ after.2
  le : after.2 ≤ fill

variable (P minSlice venues price) in
theorem allocate_passed (vqs : List VenueQuantity) (ha : 0 ≤ avail) (hf : 0 ≤ fill)
    (hl : allocated ≤ fill) (hn : ∀ a ∈ allocations, 0 ≤ a.total) :
    Passed fill (allocations, allocated)
      (allocate P minSlice venues price avail fill vqs (allocations, allocated)) := by
  induction vqs generalizing allocations allocated with
  | nil => exact ⟨hn, rfl, le_rfl, hl⟩
  | cons vq vqs ih =>
    unfold allocate
    split_ifs with hlt hskip
    · exact ih hl hn
    · simp only
      split_ifs
      · exact ih hl hn
      · have hq : 0 ≤ vq.quantity := by
          simp only [not_or, not_le] at hskip
          exact hskip.1.le
        have hshare := venueShare_nonneg (P := P) hq ha hf hl
        have hle := venueShare_le P avail fill allocated vq.quantity
        have hmore : allocated + venueShare P vq.quantity avail fill allocated ≤ fill := by omega
        have hnext := ih hmore (Ledger.nonneg_add (k := vq.venueId) (m := price) hshare hn)
        refine ⟨hnext.nonneg, ?_, ?_, hnext.le⟩
        · have := hnext.sum
          simp only [Ledger.sum_add] at this
          simp only
          omega
        · have := hnext.grows
          simp only at this ⊢
          omega
    · exact ⟨hn, rfl, le_rfl, hl⟩

variable (venues level) in
theorem assignRemainder_passed {before acc : Allocations × ℤ} (h : Passed fill before acc) :
    Passed fill before (assignRemainder venues level fill acc) := by
  obtain ⟨hn, hsum, hgrows, hle⟩ := h
  unfold assignRemainder
  split_ifs with hlt
  · refine ⟨Ledger.nonneg_add (by omega) hn, ?_, by simp only; omega, le_rfl⟩
    rw [Ledger.sum_add]
    simp only
    omega
  · exact ⟨hn, hsum, hgrows, hle⟩

variable (P minSlice venues level) in
theorem sweepLevel_total (hr : 0 ≤ remaining) (hn : ∀ a ∈ allocations, 0 ≤ a.total) :
    let next := sweepLevel P minSlice venues level allocations remaining
    (∀ a ∈ next.1, 0 ≤ a.total) ∧ next.1.sum + next.2 = allocations.sum + remaining ∧ 0 ≤ next.2 := by
  unfold sweepLevel
  simp only
  split_ifs with h
  · exact ⟨hn, rfl, hr⟩
  · have havail : 0 < levelAvailable venues level := not_le.mp h
    have hfill : 0 ≤ min remaining (levelAvailable venues level) := le_min hr havail.le
    have hpass := assignRemainder_passed venues level
      (allocate_passed P minSlice venues level.price level.venueBreakdown havail.le hfill hfill hn)
    have hsum := hpass.sum
    have hle := hpass.le.trans (min_le_left _ _)
    simp only at hsum
    exact ⟨hpass.nonneg, by simp only; omega, by simp only; omega⟩

variable (P minSlice venues allocations) in
theorem sweep_total (levels : List AggregatedLevel) (hr : 0 ≤ remaining)
    (hn : ∀ a ∈ allocations, 0 ≤ a.total) :
    (∀ a ∈ sweep P minSlice venues levels allocations remaining, 0 ≤ a.total) ∧
      (sweep P minSlice venues levels allocations remaining).sum ≤ allocations.sum + remaining := by
  induction levels generalizing allocations remaining with
  | nil => exact ⟨hn, by simp only [sweep]; omega⟩
  | cons level levels ih =>
    unfold sweep
    split_ifs
    · obtain ⟨hnext, hsum, hrem⟩ := sweepLevel_total P minSlice venues level hr hn
      simp only
      rw [← hsum]
      exact ih _ hrem hnext
    · exact ih _ hr hn
    · exact ⟨hn, by omega⟩

end Totals

theorem route_offered : ∀ s ∈ (route P minSlice order nbbo book venues).slices,
    Offered (book.opposite order.side) s.price := by
  unfold route
  split_ifs
  · simp
  · simp
  · exact Allocations.decision_price (sweep_marks (fun _ h => h) (by simp))

theorem route_nonneg : ∀ s ∈ (route P minSlice order nbbo book venues).slices, 0 ≤ s.quantity := by
  unfold route
  split_ifs with _ hleaves
  · simp
  · simp
  · exact Allocations.decision_nonneg (sweep_total _ _ _ _ _ (not_le.mp hleaves).le (by simp)).1

theorem route_total_le (h : 0 ≤ order.leavesQty) :
    (route P minSlice order nbbo book venues).totalQuantity ≤ order.leavesQty := by
  unfold route
  split_ifs
  · simpa using h
  · simpa using h
  · obtain ⟨hn, hsum⟩ := sweep_total P minSlice venues [] (book.opposite order.side) h (by simp)
    exact (Allocations.decision_total_le hn).trans (by simpa using hsum)

end Klett.Sor.LiquiditySweep
