import Mathlib.Data.List.MinMax
import Klett.Sor.SlippageBand

namespace Klett.Sor.SmartIoc

open Klett.Lib LimitPrice
open LiquiditySweep (InPriority shown shown_nonneg shown_skip shown_take shownBy shownBy_eq shownBy_nonneg shownTo
  WithinDisplay)

section Spec

variable (venues : List VenueScore) (side : Side) (worst : ℤ)

/-- A fill-or-kill order is sent just when one venue can fill all of it inside the band, and then to such
a venue, at a price that reaches the whole quantity. -/
structure FillsWhole (levels : List AggregatedLevel) (leaves : ℤ) (d : RoutingDecision) : Prop where
  sent : d.slices ≠ [] ↔ ∃ v, available venues v = true ∧ leaves ≤ shownTo side levels v worst
  single : ∀ s ∈ d.slices, d.slices = [s] ∧ s.quantity = leaves
  venue : ∀ s ∈ d.slices, available venues s.venueId = true
  within : ∀ s ∈ d.slices, WithinDisplay side levels s

end Spec

section Collecting

variable (P : Platform) (venues : List VenueScore)

def gather (levels : List AggregatedLevel) : Candidates :=
  levels.foldl (fun candidates level => level.venueBreakdown.foldl (collectLevel P venues level.price) candidates) []

variable {P venues} {side : Side} {worst price : ℤ} {level : AggregatedLevel} {levels : List AggregatedLevel}
  {candidates : Candidates} {v : ℕ}

theorem collect_eq_foldl (levels : List AggregatedLevel) (candidates : Candidates) :
    collect P side venues worst levels candidates =
      (scanned side worst levels).foldl
        (fun candidates level => level.venueBreakdown.foldl (collectLevel P venues level.price) candidates)
        candidates := by
  induction levels generalizing candidates with
  | nil => rfl
  | cons level levels ih =>
    unfold collect
    split_ifs with hd hb
    · rw [scanned_cons, if_pos hd, if_neg (beyond_iff.mp hb)]
      rfl
    · have hin : Respects side worst level.price := not_not.mp fun h => hb (beyond_iff.mpr h)
      rw [scanned_cons, if_pos hd, if_pos hin]
      exact ih _
    · rw [scanned_cons, if_neg hd]
      exact ih _

variable (P price) in
theorem collectLevel_cases (candidates : Candidates) (vq : VenueQuantity) :
    collectLevel P venues price candidates vq = candidates ∧ (vq.quantity ≤ 0 ∨ available venues vq.venueId = false) ∨
      ∃ quality, collectLevel P venues price candidates vq =
        candidates.add vq.venueId (price, quality) vq.quantity ∧
          0 < vq.quantity ∧ available venues vq.venueId = true := by
  unfold collectLevel available
  split_ifs with hq
  · exact .inl ⟨rfl, .inl hq⟩
  · cases findScore venues vq.venueId with
    | none => exact .inl ⟨rfl, .inr rfl⟩
    | some vs => exact .inr ⟨latencyQuality P vs, rfl, not_le.mp hq, rfl⟩

variable (P price candidates) in
theorem foldl_collectLevel_at (hv : available venues v = true) (vqs : List VenueQuantity) :
    (vqs.foldl (collectLevel P venues price) candidates).totalAt v = candidates.totalAt v + shown v vqs ∧
      ((vqs.foldl (collectLevel P venues price) candidates).markAt v).map Prod.fst =
        if 0 < shown v vqs then some price else (candidates.markAt v).map Prod.fst := by
  induction vqs generalizing candidates with
  | nil => exact ⟨(add_zero _).symm, rfl⟩
  | cons vq vqs ih =>
    have hnonneg := shown_nonneg v vqs
    obtain ⟨htotal, hmark⟩ := ih (collectLevel P venues price candidates vq)
    rw [List.foldl_cons, htotal, hmark]
    obtain ⟨hsame, hskip⟩ | ⟨quality, hadd, hq, -⟩ := collectLevel_cases P price candidates vq
    · have hnot : vq.quantity ≤ 0 ∨ v ≠ vq.venueId := by
        refine hskip.imp_right fun hout heq => ?_
        rw [← heq, hv] at hout
        cases hout
      rw [hsame, shown_skip hnot]
      exact ⟨rfl, rfl⟩
    · rw [hadd, Ledger.totalAt_add, Ledger.markAt_add]
      by_cases heq : vq.venueId = v
      · have hpos : 0 < vq.quantity + shown v vqs := by omega
        rw [shown_take hq heq.symm, if_pos heq, if_pos heq, if_pos hpos]
        refine ⟨add_assoc _ _ _, ?_⟩
        split_ifs <;> rfl
      · rw [shown_skip (.inr (Ne.symm heq)), if_neg heq, if_neg heq, add_zero]
        exact ⟨rfl, rfl⟩

theorem foldl_collectLevel_unavailable (hv : available venues v = false) (vqs : List VenueQuantity) :
    (vqs.foldl (collectLevel P venues price) candidates).totalAt v = candidates.totalAt v := by
  induction vqs generalizing candidates with
  | nil => rfl
  | cons vq vqs ih =>
    rw [List.foldl_cons, ih]
    obtain ⟨hsame, -⟩ | ⟨quality, hadd, -, havail⟩ := collectLevel_cases P price candidates vq
    · rw [hsame]
    · have hne : vq.venueId ≠ v := by
        rintro rfl
        rw [hv] at havail
        cases havail
      rw [hadd, Ledger.totalAt_add, if_neg hne, add_zero]

theorem foldl_collectLevel_nodup (vqs : List VenueQuantity) (h : candidates.keys.Nodup) :
    (vqs.foldl (collectLevel P venues price) candidates).keys.Nodup := by
  induction vqs generalizing candidates with
  | nil => exact h
  | cons vq vqs ih =>
    apply ih
    obtain ⟨hsame, -⟩ | ⟨quality, hadd, -, -⟩ := collectLevel_cases P price candidates vq
    · rwa [hsame]
    · rw [hadd]
      exact Ledger.nodup_keys_add h

variable (P venues) in
theorem gather_concat (levels : List AggregatedLevel) (level : AggregatedLevel) :
    gather P venues (levels ++ [level]) =
      level.venueBreakdown.foldl (collectLevel P venues level.price) (gather P venues levels) :=
  List.foldl_concat _ _ _ _

/-- Each available venue's candidate holds all that the venue shows, and its price is the last one at which
it shows anything. -/
theorem gather_at (hv : available venues v = true) (levels : List AggregatedLevel) :
    (gather P venues levels).totalAt v = (levels.map (shownBy v)).sum ∧
      ((gather P venues levels).markAt v).map Prod.fst =
        ((levels.filter fun level => 0 < shownBy v level).getLast?).map AggregatedLevel.price := by
  induction levels using List.reverseRecOn with
  | nil => exact ⟨rfl, rfl⟩
  | append_singleton levels level ih =>
    obtain ⟨htotal, hmark⟩ := foldl_collectLevel_at P level.price (gather P venues levels) hv level.venueBreakdown
    rw [← gather_concat, ← shownBy_eq] at htotal hmark
    constructor
    · rw [htotal, ih.1, List.map_append, List.sum_append]
      simp
    · rw [hmark, ih.2, List.filter_append]
      by_cases hshown : 0 < shownBy v level
      · rw [if_pos hshown, List.filter_cons_of_pos (by simpa using hshown), List.filter_nil, List.getLast?_concat]
        rfl
      · rw [if_neg hshown, List.filter_cons_of_neg (by simpa using hshown), List.filter_nil, List.append_nil]

/-- In priority, a candidate's price reaches every level at which its venue shows anything. -/
theorem gather_reaches (hv : available venues v = true) (hp : InPriority side levels) {m : ℤ × ℚ}
    (hm : (gather P venues levels).markAt v = some m) :
    ∀ level ∈ levels, 0 < shownBy v level → Respects side m.1 level.price := by
  intro level hlevel hpos
  have hmem : level ∈ levels.filter fun level => 0 < shownBy v level := List.mem_filter.mpr ⟨hlevel, decide_eq_true hpos⟩
  have hprice := (gather_at (P := P) hv levels).2
  rw [hm, Option.map_some] at hprice
  obtain ⟨last, hlast, hsame⟩ := Option.map_eq_some_iff.mp hprice.symm
  have hrefl : Std.Refl fun a b : AggregatedLevel => Respects side b.price a.price :=
    ⟨fun a => by cases side <;> exact le_rfl⟩
  have hrel := (hp.filter fun level => 0 < shownBy v level).rel_getLast hmem
  rw [List.getLast_eq_iff_getLast?_eq_some (List.ne_nil_of_mem hmem) |>.mpr hlast] at hrel
  rw [← hsame]
  exact hrel

theorem gather_unavailable (hv : available venues v = false) : (gather P venues levels).totalAt v = 0 := by
  induction levels using List.reverseRecOn with
  | nil => rfl
  | append_singleton levels level ih =>
    rw [gather_concat, foldl_collectLevel_unavailable hv]
    exact ih

theorem gather_nodup : (gather P venues levels).keys.Nodup := by
  induction levels using List.reverseRecOn with
  | nil => exact List.nodup_nil
  | append_singleton levels level ih =>
    rw [gather_concat]
    exact foldl_collectLevel_nodup _ ih

end Collecting

section Choosing

variable {P : Platform} {venues : List VenueScore} {side : Side} {worst price : ℤ} {levels : List AggregatedLevel}
  {qty : ℤ} {candidates : Candidates} {v : ℕ}

/-- Of the candidates that can fill the order the first of the best quality is taken. -/
theorem bestCandidate_eq : bestCandidate P qty candidates =
    ((P.iterate candidates).filter fun c => qty ≤ c.total).argmax fun c => c.mark.2 := by
  unfold bestCandidate List.argmax
  rw [List.foldl_filter]
  congr 1
  funext best c
  unfold prefer
  simp only [decide_eq_true_eq, ← not_lt, ite_not]
  split_ifs
  · rfl
  · cases best <;> rfl

theorem bestCandidate_fills {c : LedgerEntry ℕ (ℤ × ℚ) ℤ} (h : bestCandidate P qty candidates = some c) :
    c ∈ candidates ∧ qty ≤ c.total := by
  rw [bestCandidate_eq] at h
  obtain ⟨hmem, hfills⟩ := List.mem_filter.mp (List.argmax_mem h)
  exact ⟨P.mem_iterate.mp hmem, of_decide_eq_true hfills⟩

theorem bestCandidate_none (h : bestCandidate P qty candidates = none) : ∀ c ∈ candidates, c.total < qty := by
  rw [bestCandidate_eq, List.argmax_eq_none, List.filter_eq_nil_iff] at h
  intro c hc
  have hnot := h c (P.mem_iterate.mpr hc)
  simpa using hnot

theorem bandShown_le (h : ∀ level ∈ band side worst levels, 0 < shownBy v level → Respects side price level.price) :
    shownTo side levels v worst ≤ shownTo side levels v price := by
  induction levels with
  | nil => exact le_rfl
  | cons level levels ih =>
    have hnonneg := shownBy_nonneg v level
    rw [band_cons] at h
    rw [LiquiditySweep.shownTo_cons, LiquiditySweep.shownTo_cons]
    by_cases hin : level.displayed ∧ Respects side worst level.price
    · rw [if_pos hin] at h ⊢
      obtain ⟨hfirst, hrest⟩ := List.forall_mem_cons.mp h
      have hle := ih hrest
      by_cases hshown : 0 < shownBy v level
      · rw [if_pos ⟨hin.1, hfirst hshown⟩]
        omega
      · split_ifs <;> omega
    · rw [if_neg hin] at h ⊢
      have hle := ih h
      split_ifs <;> omega

variable {order : Order} {book : AggregatedBook}

variable (P venues) in
theorem tryFok_fillsWhole (worst : ℤ) (hleaves : 0 < order.leavesQty)
    (hp : InPriority order.side (book.opposite order.side)) :
    FillsWhole venues order.side worst (book.opposite order.side) order.leavesQty
      (tryFok P order book venues worst) := by
  have hband : InPriority order.side (band order.side worst (book.opposite order.side)) := hp.filter _
  have hcollect : collect P order.side venues worst (book.opposite order.side) [] =
      gather P venues (band order.side worst (book.opposite order.side)) := by
    rw [collect_eq_foldl, scanned_eq_band hp]
    rfl
  have hgathered (v : ℕ) (hv : available venues v = true) :=
    (gather_at (P := P) hv (band order.side worst (book.opposite order.side))).1
  unfold tryFok
  rw [hcollect]
  cases hbest : bestCandidate P order.leavesQty (gather P venues (band order.side worst (book.opposite order.side)))
    with
  | none =>
    refine ⟨iff_of_false (by simp) ?_, List.forall_mem_nil _, List.forall_mem_nil _, List.forall_mem_nil _⟩
    rintro ⟨v, hv, hshown⟩
    have htotal := hgathered v hv
    change _ = shownTo order.side (book.opposite order.side) v worst at htotal
    have hkey : v ∈ (gather P venues (band order.side worst (book.opposite order.side))).keys := by
      by_contra hnot
      rw [Ledger.totalAt_of_not_mem hnot] at htotal
      omega
    obtain ⟨c, hc, rfl⟩ := List.mem_map.mp hkey
    rw [Ledger.totalAt_of_mem gather_nodup hc] at htotal
    have hshort := bestCandidate_none hbest c hc
    omega
  | some c =>
    obtain ⟨hc, hfills⟩ := bestCandidate_fills hbest
    have htotal := Ledger.totalAt_of_mem gather_nodup hc
    have havail : available venues c.key = true := by
      by_contra hnot
      rw [gather_unavailable (Bool.not_eq_true _ ▸ hnot)] at htotal
      omega
    have hshown : shownTo order.side (book.opposite order.side) c.key worst = c.total :=
      (hgathered c.key havail).symm.trans htotal
    have hreach := bandShown_le (gather_reaches havail hband (Ledger.markAt_of_mem gather_nodup hc))
    refine ⟨iff_of_true (by simp) ⟨c.key, havail, hshown ▸ hfills⟩, ?_, ?_, ?_⟩
    · simp
    · simpa using havail
    · simp only [List.mem_singleton, forall_eq]
      unfold WithinDisplay
      simp only
      omega

/-- The fill-or-kill selection finds a venue whenever there is one. -/
theorem tryFok_sound_complete (P : Platform) (order : Order) (book : AggregatedBook) (venues : List VenueScore)
    (hfok : order.tif = .fok ∨ order.type = .fok) (hleaves : 0 < order.leavesQty)
    (hp : InPriority order.side (book.opposite order.side)) :
    (∀ worst, FillsWhole venues order.side worst (book.opposite order.side) order.leavesQty
        (tryFok P order book venues worst)) ∧
      ∀ nbbo slippageTicks worst, nbbo.valid = true →
        worstAcceptablePrice nbbo order.side slippageTicks = worst → worst ≠ invalidPrice →
        FillsWhole venues order.side worst (book.opposite order.side) order.leavesQty
          (route P slippageTicks order nbbo book venues) := by
  have htry := fun worst => tryFok_fillsWhole P venues worst hleaves hp
  refine ⟨htry, fun nbbo slippageTicks worst hvalid hband hworst => ?_⟩
  unfold route
  simp only
  rw [hband]
  split_ifs with hempty hdone
  · have hnil : venues = [] := by simpa [hvalid] using hempty
    rw [hnil]
    refine ⟨iff_of_false (by simp) ?_, List.forall_mem_nil _, List.forall_mem_nil _, List.forall_mem_nil _⟩
    rintro ⟨v, hv, -⟩
    rw [LiquiditySweep.available_nil] at hv
    cases hv
  · exact absurd hleaves (not_lt.mpr hdone)
  · exact htry worst

/-- Each venue could fill the order over two levels, and only one of them inside the band. -/
theorem tryFok_sound_complete_two_levels :
    (route .exact 5 { quantity := 350, tif := .fok } bandNbbo bandBook bandVenues).slices ≠ [] ∧
      (route .exact 5 { quantity := 351, tif := .fok } bandNbbo bandBook bandVenues).slices = [] := by
  have hp : InPriority .buy bandBook.asks := by decide
  have hwhole (n : ℤ) (hn : 0 < n) := (tryFok_sound_complete .exact { quantity := n, tif := .fok } bandBook bandVenues
    (.inl rfl) (by simpa [Order.leavesQty] using hn) hp).2 bandNbbo 5 155 (by decide) rfl (by decide)
  refine ⟨(hwhole 350 (by decide)).sent.mpr ⟨1, by decide, by decide⟩, ?_⟩
  by_contra hne
  obtain ⟨v, hv, hshown⟩ := (hwhole 351 (by decide)).sent.mp hne
  have hid := mem_availableIds hv
  obtain rfl | rfl := List.mem_pair.mp hid
  · exact absurd hshown (by decide)
  · exact absurd hshown (by decide)

end Choosing

end Klett.Sor.SmartIoc
