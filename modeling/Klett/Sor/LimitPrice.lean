import Klett.Sor.RoutingEngine
import Klett.Sor.SingleVenue
import Klett.Sor.VwapChoice

namespace Klett.Sor.LimitPrice

open Klett.Lib
open BestPrice (chosenBy computeVenueQuality feeAdjusted)
open LiquiditySweep (InPriority bestVenue eligibleVenues levelAvailable shownBy)
open SmartIoc (latencyQuality scanned worstAcceptablePrice)

section Spec

variable (P : Platform) (order : Order) (input : RouteInput) (venues : List VenueScore)

/-- The engine turns the order down before any strategy sees it. -/
def Refused (engine : RoutingEngine) (risk : RiskManager) : Prop :=
  order.symbol.empty = true ∨ order.quantity ≤ 0 ∨ order.type = .limit ∧ order.price ≤ 0 ∨
    (risk.checkOrder order input.riskSecond).2 ≠ .passed ∨ input.nbbo.valid = false ∨
    (engine.getAvailableVenues P).isEmpty = true

/-- Of the levels the ones before some level with the price take less than the order is for. -/
def ComesTo (takes : AggregatedLevel → ℤ) (levels : List AggregatedLevel) (leaves price : ℤ) : Prop :=
  ∃ pre level post, levels = pre ++ level :: post ∧ 0 < levelAvailable venues level ∧
    (pre.map takes).sum < leaves ∧ level.price = price

/-- What a level surely takes of an order that goes past it. Where the largest venue has the id 0, which stands for
none, it may be nothing. -/
def surelyTaken (level : AggregatedLevel) : ℤ :=
  if bestVenue venues level = 0 then 0 else levelAvailable venues level

def displayed (levels : List AggregatedLevel) : List AggregatedLevel := levels.filter fun level => level.displayed

/-- A venue that shows the whole order at the levels. -/
def Fills (levels : List AggregatedLevel) (leaves : ℤ) (vs : VenueScore) : Prop :=
  findScore venues vs.venueId = some vs ∧ leaves ≤ (levels.map (shownBy vs.venueId)).sum

def Fastest (levels : List AggregatedLevel) (leaves : ℤ) (vs : VenueScore) : Prop :=
  Fills venues levels leaves vs ∧
    ∀ vs', Fills venues levels leaves vs' → latencyQuality P vs' ≤ latencyQuality P vs

/-- The entries that a schedule compares: unless it is urgent, those of the first level that has any. -/
def compared (v : Vwap) (levels : List AggregatedLevel) : List Offer :=
  if P.round (8 / 10) ≤ v.config.urgency then offers venues levels
  else ((levels.map fun level => offers venues [level]).find? fun entries => !entries.isEmpty).getD []

/-- The prices that a strategy trades an order at: those of the entry that none beats, of the levels that the order
is large enough to come to, of the last level of the venue that fills it, or of the entry that the lead ends at. -/
def Trades : Strategy → ℤ → Prop
  | .bestPrice, price =>
    let side := order.side
    let key := chosenBy (feeAdjusted P) (computeVenueQuality P) side
    0 < order.leavesQty ∧ ∃ pre o post, offers venues (input.book.opposite side) = pre ++ o :: post ∧
      (∀ x ∈ pre, Beats side key o x) ∧ (∀ x ∈ post, ¬Beats side key x o) ∧ o.price = price
  | .liquiditySweep _, price =>
    ComesTo venues (surelyTaken venues) (displayed (input.book.opposite order.side)) order.leavesQty price
  | .smartIoc ticks, price =>
    let worst := worstAcceptablePrice input.nbbo order.side ticks
    let levels := scanned order.side worst (input.book.opposite order.side)
    worst ≠ invalidPrice ∧ 0 < order.leavesQty ∧
      if order.tif = .fok ∨ order.type = .fok then
        ∃ vs, Fastest P venues levels order.leavesQty vs ∧
          ∃ last ∈ (levels.filter fun level => 0 < shownBy vs.venueId level).getLast?, last.price = price
      else ComesTo venues (levelAvailable venues) levels order.leavesQty price
  | .vwap v, price =>
    let v := v.scheduled order input.beginNow
    v.isComplete = false ∧ 0 < v.totalQuantity ∧ v.config.numSlices ≠ 0 ∧
      ∃ first rest last, compared P venues v (input.book.opposite order.side) = first :: rest ∧
        Succession (Vwap.Overtakes P order.side) first rest last ∧ last.price = price

/-- Where a strategy is known to send at every price that it trades at, or at a worse one: sweeps with the levels in
order and no more venues than a decision has slices for, of which only one can take a fill-or-kill order. -/
def Definite : Strategy → Prop
  | .bestPrice | .vwap _ => True
  | .liquiditySweep minSlice =>
    let levels := input.book.opposite order.side
    minSlice = 1 ∧ (∀ vs ∈ venues, vs.venueId ≠ 0) ∧ InPriority order.side levels ∧
      (eligibleVenues venues levels).dedup.length ≤ maxSlices
  | .smartIoc ticks =>
    let levels := input.book.opposite order.side
    if order.tif = .fok ∨ order.type = .fok then
      ∀ vs vs', Fastest P venues (scanned order.side (worstAcceptablePrice input.nbbo order.side ticks) levels)
        order.leavesQty vs → Fastest P venues (scanned order.side (worstAcceptablePrice input.nbbo order.side ticks)
          levels) order.leavesQty vs' → vs = vs'
    else InPriority order.side levels ∧ (venues.filter VenueScore.isAvailable).length ≤ maxSlices

end Spec

section Coming

variable {venues : List VenueScore} {takes : AggregatedLevel → ℤ} {level : AggregatedLevel}
  {levels : List AggregatedLevel} {leaves price : ℤ}

theorem ComesTo.head (ha : 0 < levelAvailable venues level) (hl : 0 < leaves) :
    ComesTo venues takes (level :: levels) leaves level.price :=
  ⟨[], level, levels, rfl, ha, hl, rfl⟩

theorem ComesTo.cons {rest : ℤ} (h : ComesTo venues takes levels rest price)
    (hrest : ∀ s, s < rest → 0 ≤ s → takes level + s < leaves) (hn : ∀ l, 0 ≤ takes l) :
    ComesTo venues takes (level :: levels) leaves price := by
  obtain ⟨pre, l, post, rfl, ha, hsum, hprice⟩ := h
  refine ⟨level :: pre, l, post, rfl, ha, ?_, hprice⟩
  rw [List.map_cons, List.sum_cons]
  apply hrest _ hsum
  apply List.sum_nonneg
  intro q hq
  obtain ⟨l, -, rfl⟩ := List.mem_map.mp hq
  exact hn l

/-- An order comes to the first level, or what it leaves there comes to the others. -/
theorem ComesTo.cases (h : ComesTo venues takes (level :: levels) leaves price) :
    0 < levelAvailable venues level ∧ 0 < leaves ∧ level.price = price ∨
      ComesTo venues takes levels (leaves - takes level) price := by
  obtain ⟨pre, l, post, heq, ha, hsum, hprice⟩ := h
  cases pre with
  | nil =>
    obtain ⟨rfl, rfl⟩ := List.cons_eq_cons.mp heq
    exact .inl ⟨ha, hsum, hprice⟩
  | cons first pre =>
    obtain ⟨rfl, rfl⟩ := List.cons_eq_cons.mp heq
    rw [List.map_cons, List.sum_cons] at hsum
    exact .inr ⟨pre, l, post, rfl, ha, by omega, hprice⟩

theorem ComesTo.mem (h : ComesTo venues takes levels leaves price) : ∃ level ∈ levels, level.price = price := by
  obtain ⟨pre, level, post, rfl, -, -, hprice⟩ := h
  exact ⟨level, by simp, hprice⟩

theorem ComesTo.pos (h : ComesTo venues takes levels leaves price) (hn : ∀ l, 0 ≤ takes l) : 0 < leaves := by
  obtain ⟨pre, level, post, -, -, hsum, -⟩ := h
  refine lt_of_le_of_lt (List.sum_nonneg fun q hq => ?_) hsum
  obtain ⟨l, -, rfl⟩ := List.mem_map.mp hq
  exact hn l

theorem surelyTaken_nonneg (venues : List VenueScore) (level : AggregatedLevel) : 0 ≤ surelyTaken venues level := by
  unfold surelyTaken
  split_ifs
  · exact le_rfl
  · exact LiquiditySweep.levelAvailable_nonneg venues level

theorem respects_refl (side : Side) (price : ℤ) : Respects side price price := by
  cases side <;> exact le_rfl

theorem respects_trans {side : Side} {a b c : ℤ} (h : Respects side a b) (h' : Respects side b c) :
    Respects side a c := by
  cases side
  · exact le_trans h' h
  · exact le_trans h h'

end Coming

namespace Sweeping

open LiquiditySweep (filled lastPrice proRataPass reached servedAt)

variable {P : Platform} {minSlice : ℤ} {venues : List VenueScore} {level : AggregatedLevel}
  {levels : List AggregatedLevel} {leaves fill price : ℤ} {side : Side} {s : AggregatedLevel × ℤ}

theorem comesTo_of_reached (h : s ∈ reached P minSlice venues levels leaves) :
    ComesTo venues (surelyTaken venues) (displayed levels) leaves s.1.price := by
  induction levels generalizing leaves with
  | nil => cases h
  | cons level levels ih =>
    unfold displayed
    unfold reached at h
    split_ifs at h with hr hd
    · rw [List.filter_cons_of_pos (by simpa using hd.1)]
      obtain rfl | h := List.mem_cons.mp h
      · exact .head hd.2 hr
      · refine (ih h).cons (fun sum hsum hnonneg => ?_) (surelyTaken_nonneg venues)
        have hpass : 0 ≤ (proRataPass P minSlice venues level (min leaves (levelAvailable venues level))).2 :=
          (LiquiditySweep.proRataPass_passed P minSlice venues level (le_min hr.le hd.2.le)).grows
        unfold filled LiquiditySweep.leftOver at hsum
        unfold surelyTaken
        split_ifs at hsum ⊢ <;> omega
    · by_cases hshown : level.displayed
      · rw [List.filter_cons_of_pos (by simpa using hshown)]
        refine (ih h).cons (fun sum hsum hnonneg => ?_) (surelyTaken_nonneg venues)
        have hnone : levelAvailable venues level ≤ 0 := not_lt.mp fun ha => hd ⟨hshown, ha⟩
        unfold surelyTaken
        split_ifs <;> omega
      · rw [List.filter_cons_of_neg (by simpa using hshown)]
        exact ih h
    · cases h

theorem bestVenue_ne_zero (hzero : available venues 0 = false) (ha : 0 < levelAvailable venues level) :
    bestVenue venues level ≠ 0 := by
  obtain ⟨vq, hvq, hid⟩ := LiquiditySweep.bestVenue_mem ha
  intro heq
  have havail := (LiquiditySweep.mem_eligible.mp hvq).2.2
  rw [← hid, heq, hzero] at havail
  cases havail

variable (P minSlice) in
theorem reached_of_comesTo (hzero : available venues 0 = false)
    (h : ComesTo venues (surelyTaken venues) (displayed levels) leaves price) :
    ∃ s ∈ reached P minSlice venues levels leaves, s.1.price = price ∧ 0 < s.2 ∧ 0 < levelAvailable venues s.1 := by
  induction levels generalizing leaves with
  | nil =>
    obtain ⟨level, hlevel, -⟩ := h.mem
    cases hlevel
  | cons level levels ih =>
    have hr := h.pos (surelyTaken_nonneg venues)
    unfold reached
    rw [if_pos hr]
    unfold displayed at h
    by_cases hshown : level.displayed
    · rw [List.filter_cons_of_pos (by simpa using hshown)] at h
      by_cases ha : 0 < levelAvailable venues level
      · rw [if_pos ⟨hshown, ha⟩]
        have hbest := bestVenue_ne_zero hzero ha
        obtain ⟨-, -, hprice⟩ | hlater := h.cases
        · exact ⟨_, List.mem_cons_self, hprice, lt_min hr ha, ha⟩
        · have hpos := hlater.pos (surelyTaken_nonneg venues)
          have hleft : leaves - surelyTaken venues level =
              leaves - filled P minSlice venues level (min leaves (levelAvailable venues level)) := by
            unfold surelyTaken at hpos ⊢
            unfold filled
            rw [if_neg hbest] at hpos ⊢
            rw [if_neg hbest]
            omega
          rw [hleft] at hlater
          obtain ⟨s, hs, hrest⟩ := ih hlater
          exact ⟨s, List.mem_cons_of_mem _ hs, hrest⟩
      · rw [if_neg fun hd => ha hd.2]
        obtain ⟨hpos, -⟩ | hlater := h.cases
        · exact absurd hpos ha
        · have hnonneg := LiquiditySweep.levelAvailable_nonneg venues level
          have hnone : surelyTaken venues level = 0 := by
            unfold surelyTaken
            split_ifs <;> omega
          rw [hnone, sub_zero] at hlater
          exact ih hlater
    · rw [List.filter_cons_of_neg (by simpa using hshown)] at h
      rw [if_neg fun hd => hshown hd.1]
      exact ih h

variable (P minSlice) in
/-- Some venue is served at every level that the sweep comes to. -/
theorem exists_served (hzero : available venues 0 = false) (hf : 0 < fill) (ha : 0 < levelAvailable venues level) :
    ∃ v, servedAt P minSlice venues v (level, fill) = some level.price := by
  have hbest := bestVenue_ne_zero hzero ha
  by_cases hover : 0 < LiquiditySweep.leftOver P minSlice venues level fill
  · refine ⟨bestVenue venues level, if_pos (.inr ?_)⟩
    unfold LiquiditySweep.remainderOf
    rwa [if_pos ⟨rfl, hbest⟩]
  · have hsum : (proRataPass P minSlice venues level fill).1.sum - (proRataPass P minSlice venues level fill).2 =
        0 - 0 := (LiquiditySweep.proRataPass_passed P minSlice venues level hf.le).sum
    unfold LiquiditySweep.leftOver at hover
    have hne : (proRataPass P minSlice venues level fill).1 ≠ [] := by
      intro hnil
      rw [hnil, Ledger.sum_nil] at hsum
      omega
    obtain ⟨a, hmem⟩ := List.exists_mem_of_ne_nil _ hne
    exact ⟨a.key, if_pos (.inl (List.mem_map_of_mem hmem))⟩

variable {order : Order} {nbbo : Nbbo} {book : AggregatedBook}

theorem trades {slice : Slice} (hs : slice ∈ (LiquiditySweep.route P minSlice order nbbo book venues).slices) :
    ComesTo venues (surelyTaken venues) (displayed (book.opposite order.side)) order.leavesQty slice.price := by
  unfold LiquiditySweep.route at hs
  split_ifs at hs
  · simp at hs
  · simp at hs
  · obtain ⟨a, ha, -, -, hprice, -⟩ := Allocations.exists_of_slice hs
    have hmark := (LiquiditySweep.sweep_at P minSlice venues (book.opposite order.side) a.key order.leavesQty []).2
    rw [Ledger.markAt_of_mem LiquiditySweep.sweep_nodup ha,
      show Ledger.markAt a.key ([] : Allocations) = none from rfl, Option.or_none] at hmark
    have hlast := List.mem_of_getLast? hmark.symm
    obtain ⟨s, hreached, hserved⟩ := List.mem_filterMap.mp hlast
    rw [hprice, LiquiditySweep.servedAt_price hserved]
    exact comesTo_of_reached hreached

/-- The last venue served goes out at the worst price that the sweep comes to. -/
theorem sends (hvalid : nbbo.valid = true) (hids : ∀ vs ∈ venues, vs.venueId ≠ 0)
    (hp : InPriority order.side (book.opposite order.side))
    (hfew : (eligibleVenues venues (book.opposite order.side)).dedup.length ≤ maxSlices)
    (h : ComesTo venues (surelyTaken venues) (displayed (book.opposite order.side)) order.leavesQty price) :
    ∃ slice ∈ (LiquiditySweep.route P 1 order nbbo book venues).slices, Respects order.side slice.price price := by
  have hzero := LiquiditySweep.available_zero hids
  have hleaves := h.pos (surelyTaken_nonneg venues)
  obtain ⟨⟨level, fill⟩, hreached, rfl, hfill, havail⟩ := reached_of_comesTo P 1 hzero h
  obtain ⟨v, hserved⟩ := exists_served P 1 hzero hfill havail
  have hmem : level.price ∈ (reached P 1 venues (book.opposite order.side) order.leavesQty).filterMap
      (servedAt P 1 venues v) := List.mem_filterMap.mpr ⟨_, hreached, hserved⟩
  obtain ⟨last, hlast⟩ : ∃ last, lastPrice P 1 venues v (book.opposite order.side) order.leavesQty = some last :=
    ⟨_, List.getLast?_eq_some_getLast (List.ne_nil_of_mem hmem)⟩
  have hworse := LiquiditySweep.served_respects hp hlast _ hreached _ hserved
  have hmark := (LiquiditySweep.sweep_at P 1 venues (book.opposite order.side) v order.leavesQty []).2
  rw [hlast, Option.some_or] at hmark
  obtain ⟨a, ha, -, rfl⟩ := Ledger.exists_of_markAt hmark
  obtain ⟨hmerged, -⟩ := LiquiditySweep.sweepWith_merged (fun _ => LiquiditySweep.proRata P) 0
    (book.opposite order.side) hzero (fun _ hk => hk) (LiquiditySweep.Merged.nil _) hleaves.le
  rw [← LiquiditySweep.sweep_eq] at hmerged
  have hkeep : ∀ a ∈ LiquiditySweep.sweep P 1 venues (book.opposite order.side) [] order.leavesQty,
      (!decide (a.total < 1)) = true := by
    intro a ha
    have htotal := hmerged.total a ha
    simpa using htotal
  have hsent : ∃ slice ∈ ((LiquiditySweep.sweep P 1 venues (book.opposite order.side) [] order.leavesQty).decision P
      (fun total => !decide (total < 1)) order.side).slices, slice.price = a.mark :=
    Allocations.slice_of_mem order.side hkeep (hmerged.length_le.trans hfew) ha
  obtain ⟨slice, hslice, hprice⟩ := hsent
  refine ⟨slice, ?_, hprice ▸ hworse⟩
  unfold LiquiditySweep.route
  have hsome : ¬(venues.isEmpty = true ∨ (!nbbo.valid) = true) := by
    rintro (hempty | hinvalid)
    · obtain ⟨vq, hvq, -⟩ := LiquiditySweep.bestVenue_mem havail
      have hone := (LiquiditySweep.mem_eligible.mp hvq).2.2
      rw [List.isEmpty_iff.mp hempty] at hone
      cases hone
    · simp [hvalid] at hinvalid
  rw [if_neg hsome, if_neg (not_le.mpr hleaves)]
  exact hslice

end Sweeping

namespace Serving

open SmartIoc (allocate availableIds levelBuffer serve sweepLevel)

variable {P : Platform} {venues : List VenueScore} {level : AggregatedLevel} {levels : List AggregatedLevel}
  {lvs : List SmartIoc.LevelVenue} {allocations : Allocations} {remaining price worst : ℤ} {side : Side}
  {p : ℤ → Prop}

/-- The buffer of a level, best first, is empty just when nobody available shows anything there. -/
theorem buffer_ne_nil : P.sort (fun a b => a.quality > b.quality) (levelBuffer P venues level) ≠ [] ↔
    0 < levelAvailable venues level := by
  rw [← SmartIoc.levelBuffer_sum P venues level]
  constructor
  · intro hne
    obtain ⟨lv, hlv⟩ := List.exists_mem_of_ne_nil _ hne
    have hmem : lv ∈ levelBuffer P venues level := P.mem_sort.mp hlv
    refine List.sum_pos _ (fun q hq => ?_) (List.ne_nil_of_mem (List.mem_map_of_mem hmem))
    obtain ⟨lv', hlv', rfl⟩ := List.mem_map.mp hq
    exact (SmartIoc.mem_levelBuffer hlv').1
  · intro hpos hnil
    have hempty : levelBuffer P venues level = [] := (hnil ▸ (P.sort_perm _ _).symm).eq_nil
    rw [hempty] at hpos
    exact hpos.ne rfl

variable (P level) in
theorem sweepLevel_left (hm : LiquiditySweep.Merged (availableIds venues) allocations) (hr : 0 ≤ remaining) :
    LiquiditySweep.Merged (availableIds venues) (sweepLevel P venues level allocations remaining).1 ∧
      (sweepLevel P venues level allocations remaining).2 = max (remaining - levelAvailable venues level) 0 := by
  have hserves := SmartIoc.sweepLevel_serves P level (fun _ => SmartIoc.mem_availableIds) hm hr
  exact ⟨hserves.merged, hserves.left⟩

theorem serve_marks (hm : LiquiditySweep.Merged (availableIds venues) allocations) (hr : 0 ≤ remaining)
    (hp : ∀ price, ComesTo venues (levelAvailable venues) levels remaining price → p price)
    (ha : ∀ a ∈ allocations, p a.mark) : ∀ a ∈ (serve P venues levels allocations remaining).1, p a.mark := by
  induction levels generalizing allocations remaining with
  | nil => exact ha
  | cons level levels ih =>
    obtain ⟨hmerged, hleft⟩ := sweepLevel_left P level hm hr
    refine ih hmerged (hleft ▸ le_max_right _ _) (fun price h => hp price ?_) ?_
    · refine h.cons (fun s hs hn => ?_) (LiquiditySweep.levelAvailable_nonneg venues)
      rw [hleft] at hs
      omega
    · by_cases hpos : 0 < remaining
      · exact SmartIoc.allocate_marks (fun hne => hp _ (.head (buffer_ne_nil.mp hne) hpos)) ha
      · have hsame : sweepLevel P venues level allocations remaining = (allocations, remaining) :=
          SmartIoc.allocate_done (not_lt.mp hpos)
        rw [hsame]
        exact ha

theorem allocate_beyond (hprice : p price) (h : (∃ a ∈ allocations, p a.mark) ∨ lvs ≠ [] ∧ 0 < remaining) :
    ∃ a ∈ (allocate price lvs allocations remaining).1, p a.mark := by
  induction lvs generalizing allocations remaining with
  | nil => exact h.resolve_right fun hnil => hnil.1 rfl
  | cons lv lvs ih =>
    unfold allocate
    split_ifs with hpos
    · apply ih (.inl ?_)
      have hmark := Ledger.markAt_add lv.venueId lv.venueId price (min remaining lv.available) allocations
      rw [if_pos rfl] at hmark
      obtain ⟨a, ha, -, rfl⟩ := Ledger.exists_of_markAt hmark
      exact ⟨a, ha, hprice⟩
    · exact h.resolve_right fun hnew => hpos hnew.2

theorem serve_beyond_of_exists (hlevels : ∀ level ∈ levels, p level.price) (h : ∃ a ∈ allocations, p a.mark) :
    ∃ a ∈ (serve P venues levels allocations remaining).1, p a.mark := by
  induction levels generalizing allocations remaining with
  | nil => exact h
  | cons level levels ih =>
    obtain ⟨hlevel, hrest⟩ := List.forall_mem_cons.mp hlevels
    exact ih hrest (allocate_beyond hlevel (.inl h))

/-- Once a sweep comes to a level beyond the limit, some venue ends up beyond it. -/
theorem serve_beyond (hm : LiquiditySweep.Merged (availableIds venues) allocations) (hr : 0 ≤ remaining)
    (hp : levels.Pairwise fun a b => p a.price → p b.price)
    (h : ComesTo venues (levelAvailable venues) levels remaining price) (hprice : p price) :
    ∃ a ∈ (serve P venues levels allocations remaining).1, p a.mark := by
  induction levels generalizing allocations remaining with
  | nil =>
    obtain ⟨level, hlevel, -⟩ := h.mem
    cases hlevel
  | cons level levels ih =>
    obtain ⟨hhead, hrest⟩ := List.pairwise_cons.mp hp
    obtain ⟨hmerged, hleft⟩ := sweepLevel_left P level hm hr
    obtain ⟨ha, hpos, rfl⟩ | hlater := h.cases
    · rw [serve]
      refine serve_beyond_of_exists (fun l hl => hhead l hl hprice) ?_
      exact allocate_beyond hprice (.inr ⟨buffer_ne_nil.mpr ha, hpos⟩)
    · refine ih hmerged (hleft ▸ le_max_right _ _) hrest ?_
      have hmore := hlater.pos (LiquiditySweep.levelAvailable_nonneg venues)
      rwa [hleft, max_eq_left hmore.le]

variable {order : Order} {book : AggregatedBook}

theorem trades (hleaves : 0 < order.leavesQty) {slice : Slice}
    (hs : slice ∈ (SmartIoc.sweepIoc P order book venues worst).slices) :
    ComesTo venues (levelAvailable venues) (scanned order.side worst (book.opposite order.side)) order.leavesQty
      slice.price := by
  unfold SmartIoc.sweepIoc at hs
  rw [SmartIoc.sweep_eq_serve] at hs
  exact Allocations.decision_price
    (serve_marks (LiquiditySweep.Merged.nil _) hleaves.le (fun _ h => h) nofun) slice hs

theorem sends (hp : InPriority order.side (book.opposite order.side))
    (hfew : (venues.filter VenueScore.isAvailable).length ≤ maxSlices)
    (h : ComesTo venues (levelAvailable venues) (scanned order.side worst (book.opposite order.side)) order.leavesQty
      price) :
    ∃ slice ∈ (SmartIoc.sweepIoc P order book venues worst).slices, Respects order.side slice.price price := by
  have hleaves := h.pos (LiquiditySweep.levelAvailable_nonneg venues)
  have hnone := LiquiditySweep.Merged.nil (availableIds venues)
  have hworse : (scanned order.side worst (book.opposite order.side)).Pairwise fun a b =>
      Respects order.side a.price price → Respects order.side b.price price := by
    have hsub := (List.takeWhile_sublist fun level => decide (Respects order.side worst level.price)).trans
      (List.filter_sublist (p := fun level => decide level.displayed) (l := book.opposite order.side))
    exact (hp.sublist hsub).imp fun hbehind => respects_trans hbehind
  obtain ⟨a, ha, hbeyond⟩ := serve_beyond (P := P) (p := fun m => Respects order.side m price) hnone hleaves.le hworse
    h (respects_refl order.side price)
  have hmerged := (SmartIoc.serve_serves P (scanned order.side worst (book.opposite order.side))
    (fun _ => SmartIoc.mem_availableIds) hnone hleaves.le).merged
  have hkeep : ∀ a ∈ (serve P venues (scanned order.side worst (book.opposite order.side)) [] order.leavesQty).1,
      (!decide (a.total ≤ 0)) = true := by
    intro a ha
    have htotal := hmerged.total a ha
    simp only [Bool.not_eq_true', decide_eq_false_iff_not]
    omega
  have hlen : (serve P venues (scanned order.side worst (book.opposite order.side)) [] order.leavesQty).1.length ≤
      maxSlices := by
    calc (serve P venues (scanned order.side worst (book.opposite order.side)) [] order.leavesQty).1.length
        ≤ (availableIds venues).dedup.length := hmerged.length_le
      _ ≤ (availableIds venues).length := (List.dedup_sublist _).length_le
      _ = (venues.filter VenueScore.isAvailable).length := List.length_map _
      _ ≤ maxSlices := hfew
  have hsent : ∃ slice ∈ ((serve P venues (scanned order.side worst (book.opposite order.side)) []
      order.leavesQty).1.decision P (fun total => !decide (total ≤ 0)) order.side).slices, slice.price = a.mark :=
    Allocations.slice_of_mem order.side hkeep hlen ha
  obtain ⟨slice, hslice, hprice⟩ := hsent
  refine ⟨slice, ?_, hprice ▸ hbeyond⟩
  unfold SmartIoc.sweepIoc
  rw [SmartIoc.sweep_eq_serve]
  exact hslice

end Serving

namespace Filling

open SmartIoc (bestCandidate collectLevel gather)

variable {P : Platform} {venues : List VenueScore} {levels : List AggregatedLevel} {leaves worst : ℤ}

def Scored (P : Platform) (venues : List VenueScore) (c : LedgerEntry ℕ (ℤ × ℚ) ℤ) : Prop :=
  ∃ vs, findScore venues c.key = some vs ∧ c.mark.2 = latencyQuality P vs

theorem add_scored {candidates : SmartIoc.Candidates} {price q : ℤ} {v : ℕ} {vs : VenueScore}
    (hv : findScore venues v = some vs) (h : ∀ c ∈ candidates, Scored P venues c) :
    ∀ c ∈ candidates.add v (price, latencyQuality P vs) q, Scored P venues c := by
  induction candidates with
  | nil => exact List.forall_mem_singleton.mpr ⟨vs, hv, rfl⟩
  | cons e candidates ih =>
    obtain ⟨hhead, hrest⟩ := List.forall_mem_cons.mp h
    unfold Ledger.add
    split_ifs
    · exact List.forall_mem_cons.mpr ⟨⟨vs, hv, rfl⟩, hrest⟩
    · exact List.forall_mem_cons.mpr ⟨hhead, ih hrest⟩

theorem gather_scored (levels : List AggregatedLevel) : ∀ c ∈ gather P venues levels, Scored P venues c := by
  have hlevel (price : ℤ) (vqs : List VenueQuantity) {candidates : SmartIoc.Candidates}
      (h : ∀ c ∈ candidates, Scored P venues c) :
      ∀ c ∈ vqs.foldl (collectLevel P venues price) candidates, Scored P venues c := by
    induction vqs generalizing candidates with
    | nil => exact h
    | cons vq vqs ih =>
      apply ih
      unfold collectLevel
      split_ifs
      · exact h
      · cases hfound : findScore venues vq.venueId with
        | none => exact h
        | some vs => exact add_scored hfound h
  induction levels using List.reverseRecOn with
  | nil => exact nofun
  | append_singleton levels level ih =>
    rw [SmartIoc.gather_concat]
    exact hlevel level.price level.venueBreakdown ih

theorem findScore_id {v : ℕ} {vs : VenueScore} (h : findScore venues v = some vs) : vs.venueId = v := by
  have hfound := List.find?_some h
  exact of_decide_eq_true (Bool.and_eq_true_iff.mp hfound).1

/-- The candidates that can take the whole order are the venues that fill it. -/
theorem exists_candidate (hleaves : 0 < leaves) {vs : VenueScore} (h : Fills venues levels leaves vs) :
    ∃ c ∈ gather P venues levels, c.key = vs.venueId ∧ leaves ≤ c.total ∧ c.mark.2 = latencyQuality P vs := by
  obtain ⟨hfound, hshown⟩ := h
  have havail : available venues vs.venueId = true := by simp [available, hfound]
  have htotal := (SmartIoc.gather_at (P := P) havail levels).1
  have hkey : vs.venueId ∈ (gather P venues levels).keys := by
    by_contra hnot
    rw [Ledger.totalAt_of_not_mem hnot] at htotal
    omega
  obtain ⟨c, hc, hid⟩ := List.mem_map.mp hkey
  rw [← hid, Ledger.totalAt_of_mem SmartIoc.gather_nodup hc, hid] at htotal
  obtain ⟨vs', hfound', hquality⟩ := gather_scored levels c hc
  rw [hid, hfound] at hfound'
  obtain rfl := Option.some.inj hfound'
  exact ⟨c, hc, hid, htotal ▸ hshown, hquality⟩

theorem fills_of_candidate {c : LedgerEntry ℕ (ℤ × ℚ) ℤ}
    (hc : c ∈ gather P venues levels) (hfills : leaves ≤ c.total) :
    ∃ vs, Fills venues levels leaves vs ∧ c.mark.2 = latencyQuality P vs ∧
      ∃ last ∈ (levels.filter fun level => 0 < shownBy vs.venueId level).getLast?, last.price = c.mark.1 := by
  obtain ⟨vs, hfound, hquality⟩ := gather_scored levels c hc
  have hid := findScore_id hfound
  have havail : available venues c.key = true := by simp [available, hfound]
  obtain ⟨htotal, hmark⟩ := SmartIoc.gather_at (P := P) havail levels
  rw [Ledger.totalAt_of_mem SmartIoc.gather_nodup hc] at htotal
  rw [Ledger.markAt_of_mem SmartIoc.gather_nodup hc, Option.map_some] at hmark
  obtain ⟨last, hlast, hprice⟩ := Option.map_eq_some_iff.mp hmark.symm
  refine ⟨vs, ⟨hid ▸ hfound, ?_⟩, hquality, last, hid ▸ hlast, hprice⟩
  rw [hid, ← htotal]
  exact hfills

variable {order : Order} {book : AggregatedBook}

theorem collect_eq : SmartIoc.collect P order.side venues worst (book.opposite order.side) [] =
    gather P venues (scanned order.side worst (book.opposite order.side)) := SmartIoc.collect_eq_foldl _ _

theorem trades (hleaves : 0 < order.leavesQty) {slice : Slice}
    (hs : slice ∈ (SmartIoc.tryFok P order book venues worst).slices) :
    let levels := scanned order.side worst (book.opposite order.side)
    ∃ vs, Fastest P venues levels order.leavesQty vs ∧
      ∃ last ∈ (levels.filter fun level => 0 < shownBy vs.venueId level).getLast?, last.price = slice.price := by
  intro levels
  unfold SmartIoc.tryFok at hs
  rw [collect_eq] at hs
  cases hbest : bestCandidate P order.leavesQty (gather P venues levels) with
  | none => simp [levels, hbest] at hs
  | some c =>
    rw [hbest] at hs
    obtain rfl : slice = _ := by simpa using hs
    obtain ⟨hc, hfills⟩ := SmartIoc.bestCandidate_fills hbest
    obtain ⟨vs, hvs, hquality, hprice⟩ := fills_of_candidate hc hfills
    refine ⟨vs, ⟨hvs, fun vs' hvs' => ?_⟩, hprice⟩
    obtain ⟨c', hc', -, hfills', hquality'⟩ := exists_candidate (P := P) hleaves hvs'
    rw [SmartIoc.bestCandidate_eq] at hbest
    have hcovers : c' ∈ (P.iterate (gather P venues levels)).filter fun c => order.leavesQty ≤ c.total :=
      List.mem_filter.mpr ⟨P.mem_iterate.mpr hc', decide_eq_true hfills'⟩
    have hle : c'.mark.2 ≤ c.mark.2 := List.le_of_mem_argmax
      (f := fun c : LedgerEntry ℕ (ℤ × ℚ) ℤ => c.mark.2) hcovers hbest
    rwa [← hquality, ← hquality']

theorem sends (hleaves : 0 < order.leavesQty) {vs : VenueScore}
    (h : Fills venues (scanned order.side worst (book.opposite order.side)) order.leavesQty vs) :
    ∃ slice, slice ∈ (SmartIoc.tryFok P order book venues worst).slices := by
  obtain ⟨c, hc, -, hfills, -⟩ := exists_candidate (P := P) hleaves h
  unfold SmartIoc.tryFok
  rw [collect_eq]
  cases hbest : bestCandidate P order.leavesQty
    (gather P venues (scanned order.side worst (book.opposite order.side))) with
  | none =>
    have hshort := SmartIoc.bestCandidate_none hbest c hc
    omega
  | some best => exact ⟨_, List.mem_singleton_self _⟩

end Filling

namespace Comparing

open Vwap (Overtakes candidateOf scan_eq)

variable {P : Platform} {v : Vwap} {side : Side} {venues : List VenueScore} {levels : List AggregatedLevel}
  {order : Order} {nbbo : Nbbo} {book : AggregatedBook} {price : ℤ}

theorem bestPrice_scan (side : Side) (venues : List VenueScore) (levels : List AggregatedLevel) :
    BestPrice.scan P side venues levels none =
      (survivor (Beats side (chosenBy (feeAdjusted P) (computeVenueQuality P) side)) (offers venues levels)).map
        fun o => BestPrice.Candidate.ofWith (BestPrice.candidateOf (feeAdjusted P) (computeVenueQuality P) side o) := by
  have hscan : BestPrice.scan P side venues levels none = _ := BestPrice.scan_ofWith levels none
  rw [hscan, BestPrice.scanWith_eq, Option.map_map]
  rfl

theorem bestPrice_trades {slice : Slice} (hs : slice ∈ (BestPrice.route P order nbbo book venues).slices) :
    0 < order.leavesQty ∧ ∃ pre o post, offers venues (book.opposite order.side) = pre ++ o :: post ∧
      (∀ x ∈ pre, Beats order.side (chosenBy (feeAdjusted P) (computeVenueQuality P) order.side) o x) ∧
      (∀ x ∈ post, ¬Beats order.side (chosenBy (feeAdjusted P) (computeVenueQuality P) order.side) x o) ∧
      o.price = slice.price := by
  obtain ⟨hleaves, -, best, hbest, hprice⟩ := BestPrice.mem_route hs
  rw [bestPrice_scan] at hbest
  obtain ⟨o, ho, rfl⟩ := Option.mem_map.mp hbest
  obtain ⟨pre, post, heq, hpre, hpost⟩ := mem_survivor_beats.mp ho
  exact ⟨hleaves, pre, o, post, heq, hpre, hpost, hprice.symm⟩

theorem bestPrice_sends (hvalid : nbbo.valid = true) (hvenues : venues.isEmpty = false) (hleaves : 0 < order.leavesQty)
    {pre post : List Offer} {o : Offer} (heq : offers venues (book.opposite order.side) = pre ++ o :: post)
    (hpre : ∀ x ∈ pre, Beats order.side (chosenBy (feeAdjusted P) (computeVenueQuality P) order.side) o x)
    (hpost : ∀ x ∈ post, ¬Beats order.side (chosenBy (feeAdjusted P) (computeVenueQuality P) order.side) x o) :
    ∃ slice ∈ (BestPrice.route P order nbbo book venues).slices, slice.price = o.price := by
  have hsurvives : survivor (Beats order.side (chosenBy (feeAdjusted P) (computeVenueQuality P) order.side))
      (offers venues (book.opposite order.side)) = some o := mem_survivor_beats.mpr ⟨pre, post, heq, hpre, hpost⟩
  unfold BestPrice.route
  rw [if_neg (by simp [hvalid, hvenues]), if_neg (not_le.mpr hleaves), bestPrice_scan, hsurvives]
  exact ⟨_, List.mem_singleton_self _, rfl⟩

/-- The first level with an entry decides, unless the schedule is urgent. -/
theorem vwap_scan (side : Side) (venues : List VenueScore) (levels : List AggregatedLevel) :
    v.scan P side venues levels none =
      (survivor (Overtakes P side) (compared P venues v levels)).map (candidateOf P) := by
  by_cases hurgent : P.round (8 / 10) ≤ v.config.urgency
  · rw [Vwap.scan_eq hurgent, compared, if_pos hurgent]
  · rw [compared, if_neg hurgent]
    induction levels with
    | nil => rfl
    | cons level levels ih =>
      have hlevel := Vwap.foldl_level P side venues level none
      rw [Vwap.foldl_step_eq] at hlevel
      rw [List.map_cons, List.find?_cons]
      unfold Vwap.scan
      cases hentries : offers venues [level] with
      | nil =>
        rw [hentries] at hlevel
        split_ifs at hlevel ⊢
        · simp only [hlevel]
          exact ih
        · exact ih
      | cons o entries =>
        obtain ⟨b, hb⟩ := Option.ne_none_iff_exists'.mp fun hnone =>
          List.cons_ne_nil o entries (survivor_eq_none (r := Overtakes P side).mp hnone)
        rw [hentries, hb] at hlevel
        split_ifs at hlevel ⊢
        · simp only [hlevel]
          simp [not_le.mp hurgent, hb]
        · cases hlevel

theorem vwap_trades {progressNow : ℤ}
    {slice : Slice} (hs : slice ∈ (v.getNextSlice P order nbbo book venues progressNow).slices) :
    v.isComplete = false ∧ 0 < v.totalQuantity ∧ v.config.numSlices ≠ 0 ∧
      ∃ first rest last, compared P venues v (book.opposite order.side) = first :: rest ∧
        Succession (Overtakes P order.side) first rest last ∧ last.price = slice.price := by
  obtain ⟨hdue, -, best, hbest, hprice⟩ := Vwap.mem_getNextSlice hs
  rw [vwap_scan] at hbest
  obtain ⟨last, hlast, rfl⟩ := Option.mem_map.mp hbest
  obtain ⟨first, rest, hentries⟩ := List.exists_cons_of_ne_nil (List.ne_nil_of_mem (survivor_mem hlast))
  have hopen : v.isComplete = false := by
    by_contra hcomplete
    unfold Vwap.getNextSlice at hs
    rw [if_pos (.inl (by simpa using hcomplete))] at hs
    simp at hs
  unfold Vwap.computeSliceQuantity at hdue
  split_ifs at hdue with hnone
  · exact absurd hdue (lt_irrefl 0)
  · exact absurd hdue (lt_irrefl 0)
  · obtain ⟨htotal, hslices⟩ := not_or.mp hnone
    rw [hentries] at hlast
    exact ⟨hopen, not_le.mp htotal, hslices, first, rest, last, hentries, mem_survivor_cons.mp hlast, hprice.symm⟩

theorem vwap_sends (progressNow : ℤ) (hvalid : nbbo.valid = true) (hvenues : venues.isEmpty = false)
    (hopen : v.isComplete = false) (htotal : 0 < v.totalQuantity) (hslices : v.config.numSlices ≠ 0)
    {first last : Offer} {rest : List Offer} (hentries : compared P venues v (book.opposite order.side) = first :: rest)
    (hlast : Succession (Overtakes P order.side) first rest last) :
    ∃ slice ∈ (v.getNextSlice P order nbbo book venues progressNow).slices, slice.price = last.price := by
  have hremaining : 0 < v.remaining := by
    simp only [Vwap.isComplete, Vwap.remaining, decide_eq_false_iff_not] at hopen ⊢
    omega
  have hquantity : 0 < v.computeSliceQuantity P progressNow := by
    unfold Vwap.computeSliceQuantity
    rw [if_neg (by simp [htotal, hslices]), if_neg hremaining.not_ge]
    exact lt_of_lt_of_le one_pos (le_max_left _ _)
  have hsurvives : survivor (Overtakes P order.side) (compared P venues v (book.opposite order.side)) = some last := by
    rw [hentries]
    exact mem_survivor_cons.mpr hlast
  unfold Vwap.getNextSlice
  rw [if_neg (by simp [hopen, hvalid, hvenues]), if_neg hquantity.not_ge, vwap_scan, hsurvives]
  exact ⟨_, List.mem_singleton_self _, rfl⟩

end Comparing

section Strategies

variable {P : Platform} {order : Order} {input : RouteInput} {venues : List VenueScore} {price : ℤ}

theorem route_trades (strategy : Strategy) : ∀ s ∈ (strategy.route P order input venues).2.slices,
    Trades P order input venues strategy s.price := by
  intro s hs
  cases strategy with
  | bestPrice => exact Comparing.bestPrice_trades hs
  | liquiditySweep minSlice => exact Sweeping.trades hs
  | smartIoc ticks =>
    change s ∈ (SmartIoc.route P ticks order input.nbbo input.book venues).slices at hs
    unfold SmartIoc.route at hs
    simp only at hs
    split_ifs at hs with _ hleaves hworst hfok
    · simp at hs
    · simp at hs
    · simp at hs
    · refine ⟨hworst, not_le.mp hleaves, ?_⟩
      rw [if_pos hfok]
      exact Filling.trades (not_le.mp hleaves) hs
    · refine ⟨hworst, not_le.mp hleaves, ?_⟩
      rw [if_neg hfok]
      exact Serving.trades (not_le.mp hleaves) hs
  | vwap v => exact Comparing.vwap_trades hs

theorem route_sends (strategy : Strategy) (hvalid : input.nbbo.valid = true) (hvenues : venues.isEmpty = false)
    (hd : Definite P order input venues strategy) (h : Trades P order input venues strategy price) :
    ∃ s ∈ (strategy.route P order input venues).2.slices, Respects order.side s.price price := by
  cases strategy with
  | bestPrice =>
    obtain ⟨hleaves, pre, o, post, heq, hpre, hpost, rfl⟩ := h
    obtain ⟨s, hs, hprice⟩ := Comparing.bestPrice_sends hvalid hvenues hleaves heq hpre hpost
    exact ⟨s, hs, hprice ▸ respects_refl _ _⟩
  | liquiditySweep minSlice =>
    obtain ⟨rfl, hids, hp, hfew⟩ := hd
    exact Sweeping.sends hvalid hids hp hfew h
  | smartIoc ticks =>
    obtain ⟨hworst, hleaves, htrades⟩ := h
    change ∃ s ∈ (SmartIoc.route P ticks order input.nbbo input.book venues).slices, _
    unfold SmartIoc.route
    simp only
    rw [if_neg (by simp [hvalid, hvenues]), if_neg (not_le.mpr hleaves), if_neg hworst]
    unfold Definite at hd
    split_ifs at htrades hd ⊢ with hfok
    · obtain ⟨vs, hfastest, last, hlast, rfl⟩ := htrades
      obtain ⟨s, hs⟩ := Filling.sends (P := P) hleaves hfastest.1
      obtain ⟨vs', hfastest', last', hlast', hprice⟩ := Filling.trades hleaves hs
      obtain rfl := hd vs vs' hfastest hfastest'
      obtain rfl : last = last' := Option.mem_unique hlast hlast'
      exact ⟨s, hs, hprice ▸ respects_refl _ _⟩
    · exact Serving.sends hd.1 hd.2 htrades
  | vwap v =>
    obtain ⟨hopen, htotal, hslices, first, rest, last, hentries, hlast, rfl⟩ := h
    obtain ⟨s, hs, hprice⟩ :=
      Comparing.vwap_sends input.progressNow hvalid hvenues hopen htotal hslices hentries hlast
    exact ⟨s, hs, hprice ▸ respects_refl _ _⟩

end Strategies

section Engine

variable {P : Platform} {engine : RoutingEngine} {risk : RiskManager} {order : Order} {input : RouteInput}

theorem routeOrder_of_refused (h : Refused P order input engine risk) :
    (engine.routeOrder P risk order input).2.2 = {} := by
  unfold RoutingEngine.routeOrder
  simp only
  split_ifs with hsymbol hq hp hcheck hn
  · rfl
  · rfl
  · rfl
  · rfl
  · rfl
  · obtain h | h | h | h | h | h := h
    · exact absurd h hsymbol
    · exact absurd h hq
    · exact absurd h hp
    · exact absurd h hcheck
    · simp [h] at hn
    · unfold RoutingEngine.dispatch
      simp only [h]
      cases engine.strategies order.strategy <;> rfl

theorem routeOrder_of_open (h : ¬Refused P order input engine risk) {strategy : Strategy}
    (hs : engine.strategies order.strategy = some strategy) :
    input.nbbo.valid = true ∧ (engine.getAvailableVenues P).isEmpty = false ∧
      (engine.routeOrder P risk order input).2.2 =
        (strategy.route P order input (engine.getAvailableVenues P)).2 := by
  unfold Refused at h
  simp only [not_or, Bool.not_eq_true, Bool.not_eq_false, not_le, not_not] at h
  obtain ⟨hsymbol, hq, hp, hcheck, hn, hv⟩ := h
  refine ⟨hn, hv, RoutingEngine.routeOrder_accepted P engine risk order input strategy hsymbol hq (fun hlimit => ?_)
    hcheck hn hs hv⟩
  exact not_le.mp fun hle => hp ⟨hlimit, hle⟩

end Engine

/-- The strategies never look at an order's price. So its limit is respected where the engine turns it down, and where
the prices that its strategy trades it at happen to be within the limit; in no other case, where it is definite that
the strategy sends. -/
theorem limit_respected_of_trades (P : Platform) (engine : RoutingEngine) (risk : RiskManager) (order : Order)
    (input : RouteInput) :
    let venues := engine.getAvailableVenues P
    let respected := ∀ s ∈ (engine.routeOrder P risk order input).2.2.slices,
      Respects order.side order.price s.price
    let clear := Refused P order input engine risk ∨ ∀ strategy, engine.strategies order.strategy = some strategy →
      ∀ price, Trades P order input venues strategy price → Respects order.side order.price price
    (clear → respected) ∧
      ((∀ strategy, engine.strategies order.strategy = some strategy → Definite P order input venues strategy) →
        respected → clear) := by
  intro venues respected clear
  constructor
  · rintro hclear s hs
    obtain hempty | ⟨-, strategy, hstrategy, hrouted⟩ := RoutingEngine.routeOrder_cases P engine risk order input
    · rw [hempty] at hs
      simp at hs
    · obtain hrefused | hall := hclear
      · rw [routeOrder_of_refused hrefused] at hs
        simp at hs
      · rw [hrouted] at hs
        exact hall strategy hstrategy s.price (route_trades strategy s hs)
  · intro hdefinite hrespected
    by_contra hnot
    obtain ⟨hopen, hbeyond⟩ := not_or.mp hnot
    push Not at hbeyond
    obtain ⟨strategy, hstrategy, price, htrades, hworse⟩ := hbeyond
    obtain ⟨hvalid, hvenues, hrouted⟩ := routeOrder_of_open hopen hstrategy
    obtain ⟨s, hs, hbehind⟩ := route_sends strategy hvalid hvenues (hdefinite strategy hstrategy) htrades
    rw [← hrouted] at hs
    exact hworse (respects_trans (hrespected s hs) hbehind)

def twoLevels : RouteInput where
  riskSecond := 0
  beginNow := 0
  progressNow := 0
  nbbo := { bestBid := 99 * priceScale, bestBidQty := 10, bestAsk := 101 * priceScale, bestAskQty := 10 }
  book := {
    bids := []
    bidsFit := Nat.zero_le maxDepth
    asks := [{ price := 101 * priceScale, totalQuantity := 10, venueBreakdown := [⟨1, 10⟩] },
      { price := 102 * priceScale, totalQuantity := 10, venueBreakdown := [⟨1, 10⟩] }] }

/-- A buy limit order at 101 is sent at 101, though 102 is on display too. -/
theorem limit_respected_two_levels :
    let order : Order :=
      { id := 1, symbol := .assign [65], side := .buy, price := 101 * priceScale, quantity := 10 }
    let engine := (({} : RoutingEngine).registerStrategy .bestPrice).updateVenueScore 1 {}
    (engine.routeOrder .exact (.initial 0) order twoLevels).2.2.slices ≠ [] ∧
      ∀ s ∈ (engine.routeOrder .exact (.initial 0) order twoLevels).2.2.slices,
        Respects order.side order.price s.price := by
  intro order engine
  refine ⟨by decide +kernel, (limit_respected_of_trades .exact engine (.initial 0) order twoLevels).1 (.inr ?_)⟩
  rintro strategy hstrategy price htrades
  obtain rfl : Strategy.bestPrice = strategy := Option.some.inj hstrategy
  obtain ⟨-, pre, o, post, heq, hpre, hpost, rfl⟩ := htrades
  have hfirst : (survivor (Beats .buy (chosenBy (feeAdjusted .exact) (computeVenueQuality .exact) .buy))
      (offers (engine.getAvailableVenues .exact) twoLevels.book.asks)).map Offer.price = some (101 * priceScale) := by
    decide +kernel
  have hsurvives : survivor (Beats .buy (chosenBy (feeAdjusted .exact) (computeVenueQuality .exact) .buy))
      (offers (engine.getAvailableVenues .exact) twoLevels.book.asks) = some o :=
    mem_survivor_beats.mpr ⟨pre, post, heq, hpre, hpost⟩
  rw [hsurvives, Option.map_some] at hfirst
  exact (Option.some.inj hfirst).le

/-- A buy limit order at 100 goes out at 101. -/
theorem limit_exceeded :
    let order : Order :=
      { id := 1, symbol := .assign [65], side := .buy, price := 100 * priceScale, quantity := 10 }
    let engine := (({} : RoutingEngine).registerStrategy .bestPrice).updateVenueScore 1 {}
    let market := MarketDataAggregator.quoting 1 order.symbol (99 * priceScale) (101 * priceScale) 10
    let input := market.routeInput .exact order.symbol 0
    (engine.routeOrder .exact (.initial 0) order input).2.2.slices =
        [⟨1, 101 * priceScale, 10, .limit, .gtc⟩] ∧
      order.type = .limit ∧ ¬Respects order.side order.price (101 * priceScale) := by
  decide +kernel

end Klett.Sor.LimitPrice
