import Klett.Sor.Routing

namespace Klett.Sor.SmartIoc

open Klett.Lib

def worstAcceptablePrice (nbbo : Nbbo) (side : Side) (slippageTicks : ℤ) : ℤ :=
  match side with
  | .buy => if nbbo.bestAsk = invalidPrice then invalidPrice else nbbo.bestAsk + slippageTicks
  | .sell =>
    if nbbo.bestBid = invalidPrice then invalidPrice
    else if nbbo.bestBid - slippageTicks > 0 then nbbo.bestBid - slippageTicks
    else 1

def beyond (side : Side) (price worst : ℤ) : Bool :=
  match side with
  | .buy => price > worst
  | .sell => price < worst

variable (P : Platform)

def latencyQuality (vs : VenueScore) : ℚ := blendedQuality P (4 / 10) (6 / 10) vs

abbrev Candidates := Ledger ℕ (ℤ × ℚ) ℤ

def collectLevel (venues : List VenueScore) (price : ℤ) (candidates : Candidates)
    (vq : VenueQuantity) : Candidates :=
  if vq.quantity ≤ 0 then candidates
  else
    match findScore venues vq.venueId with
    | none => candidates
    | some vs => candidates.add vq.venueId (price, latencyQuality P vs) vq.quantity

def collect (side : Side) (venues : List VenueScore) (worst : ℤ) :
    List AggregatedLevel → Candidates → Candidates
  | [], candidates => candidates
  | level :: levels, candidates =>
    if level.displayed then
      if beyond side level.price worst then candidates
      else collect side venues worst levels
        (level.venueBreakdown.foldl (collectLevel P venues level.price) candidates)
    else collect side venues worst levels candidates

/-- A venue that cannot fill the whole order is passed over; of the others the best quality wins. -/
def prefer (qty : ℤ) (best : Option (LedgerEntry ℕ (ℤ × ℚ) ℤ)) (cand : LedgerEntry ℕ (ℤ × ℚ) ℤ) :
    Option (LedgerEntry ℕ (ℤ × ℚ) ℤ) :=
  if cand.total < qty then best
  else
    match best with
    | none => some cand
    | some b => if cand.mark.2 > b.mark.2 then some cand else best

def bestCandidate (qty : ℤ) (candidates : Candidates) : Option (LedgerEntry ℕ (ℤ × ℚ) ℤ) :=
  (P.iterate candidates).foldl (prefer qty) none

def tryFok (order : Order) (book : AggregatedBook) (venues : List VenueScore) (worst : ℤ) :
    RoutingDecision :=
  match bestCandidate P order.leavesQty
      (collect P order.side venues worst (book.opposite order.side) []) with
  | none => {}
  | some best => ⟨[{
      venueId := best.key
      price := best.mark.1
      quantity := order.leavesQty
      type := .limit
      tif := .fok }]⟩

structure LevelVenue where
  venueId : ℕ
  available : ℤ
  quality : ℚ

/-- In the lookup table a later score of a venue replaces an earlier one. -/
def levelVenue (venues : List VenueScore) (vq : VenueQuantity) : Option LevelVenue :=
  if vq.quantity ≤ 0 then none
  else (findScore venues.reverse vq.venueId).map fun vs => ⟨vq.venueId, vq.quantity, latencyQuality P vs⟩

def allocate (price : ℤ) : List LevelVenue → Allocations → ℤ → Allocations × ℤ
  | [], allocations, remaining => (allocations, remaining)
  | lv :: lvs, allocations, remaining =>
    if remaining > 0 then
      let fill := min remaining lv.available
      allocate price lvs (allocations.add lv.venueId price fill) (remaining - fill)
    else (allocations, remaining)

def sweepLevel (venues : List VenueScore) (level : AggregatedLevel) (allocations : Allocations)
    (remaining : ℤ) : Allocations × ℤ :=
  let buffer := (level.venueBreakdown.filterMap (levelVenue P venues)).take maxLevelVenues
  allocate level.price (P.sort (fun a b => a.quality > b.quality) buffer) allocations remaining

def sweep (side : Side) (venues : List VenueScore) (worst : ℤ) :
    List AggregatedLevel → Allocations → ℤ → Allocations
  | [], allocations, _ => allocations
  | level :: levels, allocations, remaining =>
    if remaining > 0 then
      if level.displayed then
        if beyond side level.price worst then allocations
        else
          let next := sweepLevel P venues level allocations remaining
          sweep side venues worst levels next.1 next.2
      else sweep side venues worst levels allocations remaining
    else allocations

def sweepIoc (order : Order) (book : AggregatedBook) (venues : List VenueScore) (worst : ℤ) :
    RoutingDecision :=
  let allocations := sweep P order.side venues worst (book.opposite order.side) [] order.leavesQty
  allocations.decision P (fun total => !decide (total ≤ 0)) order.side

def route (slippageTicks : ℤ) (order : Order) (nbbo : Nbbo) (book : AggregatedBook)
    (venues : List VenueScore) : RoutingDecision :=
  if venues.isEmpty ∨ !nbbo.valid then {}
  else if order.leavesQty ≤ 0 then {}
  else
    let worst := worstAcceptablePrice nbbo order.side slippageTicks
    if worst = invalidPrice then {}
    else if order.tif = .fok ∨ order.type = .fok then tryFok P order book venues worst
    else sweepIoc P order book venues worst

variable {P} {side : Side} {venues : List VenueScore} {order : Order} {nbbo : Nbbo}
  {book : AggregatedBook} {level : AggregatedLevel} {worst slippageTicks : ℤ}

section Marks

variable {p : ℤ → Prop}

theorem collectLevel_marks {price : ℤ} {vqs : List VenueQuantity} {candidates : Candidates}
    (hc : ∀ c ∈ candidates, p c.mark.1) (hp : ∀ vq ∈ vqs, 0 < vq.quantity → p price) :
    ∀ c ∈ vqs.foldl (collectLevel P venues price) candidates, p c.mark.1 := by
  induction vqs generalizing candidates with
  | nil => exact hc
  | cons vq vqs ih =>
    apply ih _ fun x hx => hp x (List.mem_cons_of_mem _ hx)
    unfold collectLevel
    split_ifs with hq
    · exact hc
    · split
      · exact hc
      · exact Ledger.marks_add (p := fun m : ℤ × ℚ => p m.1) (hp vq List.mem_cons_self (not_le.mp hq)) hc

theorem collect_marks {levels : List AggregatedLevel} {candidates : Candidates}
    (hp : ∀ price, Offered levels price → p price) (hc : ∀ c ∈ candidates, p c.mark.1) :
    ∀ c ∈ collect P side venues worst levels candidates, p c.mark.1 := by
  induction levels generalizing candidates with
  | nil => exact hc
  | cons level levels ih =>
    have hrest := fun price (h : Offered levels price) => hp price (h.cons level)
    unfold collect
    split_ifs with hd
    · exact hc
    · refine ih hrest (collectLevel_marks hc fun vq hvq hq => ?_)
      exact hp _ (.of_mem List.mem_cons_self hd hvq hq)
    · exact ih hrest hc

theorem foldl_prefer_mem {qty : ℤ} {candidates l : Candidates}
    {best : Option (LedgerEntry ℕ (ℤ × ℚ) ℤ)} (hl : ∀ c ∈ l, c ∈ candidates)
    (hb : ∀ c ∈ best, c ∈ candidates) : ∀ c ∈ l.foldl (prefer qty) best, c ∈ candidates := by
  induction l generalizing best with
  | nil => exact hb
  | cons cand l ih =>
    have hcand := hl cand List.mem_cons_self
    apply ih fun c hc => hl c (List.mem_cons_of_mem _ hc)
    unfold prefer
    split_ifs
    · exact hb
    · cases best with
      | none => simpa using hcand
      | some b =>
        simp only
        split_ifs
        · simpa using hcand
        · exact hb

theorem bestCandidate_mem {qty : ℤ} {candidates : Candidates} :
    ∀ c ∈ bestCandidate P qty candidates, c ∈ candidates :=
  foldl_prefer_mem (fun _ hc => P.mem_iterate.mp hc) (by simp)

theorem allocate_marks {price remaining : ℤ} {lvs : List LevelVenue} {allocations : Allocations}
    (hp : lvs ≠ [] → p price) (ha : ∀ a ∈ allocations, p a.mark) :
    ∀ a ∈ (allocate price lvs allocations remaining).1, p a.mark := by
  induction lvs generalizing allocations remaining with
  | nil => exact ha
  | cons lv lvs ih =>
    have hprice := hp (List.cons_ne_nil _ _)
    unfold allocate
    split_ifs
    · exact ih (fun _ => hprice) (Ledger.marks_add hprice ha)
    · exact ha

theorem sweepLevel_marks {remaining : ℤ} {allocations : Allocations}
    (hp : ∀ vq ∈ level.venueBreakdown, 0 < vq.quantity → p level.price)
    (ha : ∀ a ∈ allocations, p a.mark) :
    ∀ a ∈ (sweepLevel P venues level allocations remaining).1, p a.mark := by
  refine allocate_marks (fun hne => ?_) ha
  obtain ⟨lv, hlv⟩ := List.exists_mem_of_ne_nil _ hne
  obtain ⟨vq, hvq, hsome⟩ := List.mem_filterMap.mp (List.mem_of_mem_take (P.mem_sort.mp hlv))
  unfold levelVenue at hsome
  split_ifs at hsome with hq
  exact hp vq hvq (not_le.mp hq)

theorem sweep_marks {levels : List AggregatedLevel} {allocations : Allocations} {remaining : ℤ}
    (hp : ∀ price, Offered levels price → p price) (ha : ∀ a ∈ allocations, p a.mark) :
    ∀ a ∈ sweep P side venues worst levels allocations remaining, p a.mark := by
  induction levels generalizing allocations remaining with
  | nil => exact ha
  | cons level levels ih =>
    have hrest := fun price (h : Offered levels price) => hp price (h.cons level)
    unfold sweep
    split_ifs with hrem hd
    · exact ha
    · refine ih hrest (sweepLevel_marks (fun vq hvq hq => ?_) ha)
      exact hp _ (.of_mem List.mem_cons_self hd hvq hq)
    · exact ih hrest ha
    · exact ha

end Marks

theorem allocate_total {price remaining : ℤ} {lvs : List LevelVenue} {allocations : Allocations}
    (hr : 0 ≤ remaining) (hn : ∀ a ∈ allocations, 0 ≤ a.total) (hl : ∀ lv ∈ lvs, 0 ≤ lv.available) :
    let next := allocate price lvs allocations remaining
    (∀ a ∈ next.1, 0 ≤ a.total) ∧ next.1.sum + next.2 = allocations.sum + remaining ∧ 0 ≤ next.2 := by
  induction lvs generalizing allocations remaining with
  | nil => exact ⟨hn, rfl, hr⟩
  | cons lv lvs ih =>
    unfold allocate
    split_ifs
    · have havail := hl lv List.mem_cons_self
      have hfill : 0 ≤ min remaining lv.available := le_min hr havail
      have hleft : 0 ≤ remaining - min remaining lv.available := by omega
      have hadded := Ledger.nonneg_add (k := lv.venueId) (m := price) hfill hn
      have hnext := ih hleft hadded fun x hx => hl x (List.mem_cons_of_mem _ hx)
      rw [Ledger.sum_add] at hnext
      simp only at hnext ⊢
      exact ⟨hnext.1, by omega, hnext.2.2⟩
    · exact ⟨hn, rfl, hr⟩

variable (P venues level) in
theorem sweepLevel_total {remaining : ℤ} {allocations : Allocations} (hr : 0 ≤ remaining)
    (hn : ∀ a ∈ allocations, 0 ≤ a.total) :
    let next := sweepLevel P venues level allocations remaining
    (∀ a ∈ next.1, 0 ≤ a.total) ∧ next.1.sum + next.2 = allocations.sum + remaining ∧ 0 ≤ next.2 := by
  refine allocate_total hr hn fun lv hlv => ?_
  obtain ⟨vq, -, hsome⟩ := List.mem_filterMap.mp (List.mem_of_mem_take (P.mem_sort.mp hlv))
  unfold levelVenue at hsome
  split_ifs at hsome with hq
  obtain ⟨vs, -, rfl⟩ := Option.map_eq_some_iff.mp hsome
  exact (not_le.mp hq).le

variable (P side venues worst) in
theorem sweep_total (levels : List AggregatedLevel) (allocations : Allocations) {remaining : ℤ}
    (hr : 0 ≤ remaining) (hn : ∀ a ∈ allocations, 0 ≤ a.total) :
    (∀ a ∈ sweep P side venues worst levels allocations remaining, 0 ≤ a.total) ∧
      (sweep P side venues worst levels allocations remaining).sum ≤ allocations.sum + remaining := by
  induction levels generalizing allocations remaining with
  | nil => exact ⟨hn, by simp only [sweep]; omega⟩
  | cons level levels ih =>
    unfold sweep
    split_ifs
    · exact ⟨hn, by omega⟩
    · obtain ⟨hnext, hsum, hrem⟩ := sweepLevel_total P venues level hr hn
      simp only
      rw [← hsum]
      exact ih _ hrem hnext
    · exact ih _ hr hn
    · exact ⟨hn, by omega⟩

theorem tryFok_offered : ∀ s ∈ (tryFok P order book venues worst).slices,
    Offered (book.opposite order.side) s.price := by
  intro s hs
  unfold tryFok at hs
  split at hs
  · simp at hs
  next best hbest =>
    obtain rfl : s = _ := by simpa using hs
    exact collect_marks (fun _ h => h) (by simp) best (bestCandidate_mem best hbest)

theorem sweepIoc_offered : ∀ s ∈ (sweepIoc P order book venues worst).slices,
    Offered (book.opposite order.side) s.price :=
  Allocations.decision_price (sweep_marks (fun _ h => h) (by simp))

theorem route_offered : ∀ s ∈ (route P slippageTicks order nbbo book venues).slices,
    Offered (book.opposite order.side) s.price := by
  unfold route
  simp only
  split_ifs
  · simp
  · simp
  · simp
  · exact tryFok_offered
  · exact sweepIoc_offered

theorem route_nonneg : ∀ s ∈ (route P slippageTicks order nbbo book venues).slices, 0 ≤ s.quantity := by
  unfold route
  simp only
  split_ifs with _ hleaves
  · simp
  · simp
  · simp
  · unfold tryFok
    split
    · simp
    · simpa using (not_le.mp hleaves).le
  · exact Allocations.decision_nonneg (sweep_total _ _ _ _ _ _ (not_le.mp hleaves).le (by simp)).1

theorem sweepIoc_total_le (h : 0 ≤ order.leavesQty) :
    (sweepIoc P order book venues worst).totalQuantity ≤ order.leavesQty := by
  obtain ⟨hn, hsum⟩ := sweep_total P order.side venues worst (book.opposite order.side) [] h (by simp)
  exact (Allocations.decision_total_le hn).trans (by simpa using hsum)

theorem route_total_le (h : 0 ≤ order.leavesQty) :
    (route P slippageTicks order nbbo book venues).totalQuantity ≤ order.leavesQty := by
  unfold route
  simp only
  split_ifs
  · simpa using h
  · simpa using h
  · simpa using h
  · unfold tryFok
    split
    · simpa using h
    · simp
  · exact sweepIoc_total_le h

end Klett.Sor.SmartIoc
