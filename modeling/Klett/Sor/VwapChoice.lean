import Klett.Sor.VenueChoice
import Klett.Sor.Vwap

namespace Klett.Sor.Vwap

open Klett.Lib
open BestPrice (chosenBy)

section Keys

variable (P : Platform) (side : Side) (venues : List VenueScore)

def quality (score : VenueScore) : ℚ := blendedQuality P (7 / 10) (3 / 10) score

def Overtakes (x b : Offer) : Prop :=
  Better side (feePrice P x.price x.score.feeRate side, quality P x.score)
    (feePrice P b.price x.score.feeRate side, quality P b.score)

instance : DecidableRel (Overtakes P side) := fun _ _ => inferInstanceAs (Decidable (Better _ _ _))

def sliceKey (s : Slice) : Option (ℤ × ℚ) :=
  (findScore venues s.venueId).map fun score => (feePrice P s.price score.feeRate side, quality P score)

def bestKey (levels : List AggregatedLevel) : Option (ℤ × ℚ) :=
  (BestPrice.scan P side venues levels none).map fun best => (best.feeAdjPrice, best.quality)

def ownKey (o : Offer) : ℤ × ℚ := chosenBy (feePrice P) (quality P) side o

def rawKey (o : Offer) : ℤ × ℚ := (o.price, quality P o.score)

end Keys

section Scanning

variable {P : Platform} {v : Vwap} {side : Side} {venues : List VenueScore} {levels : List AggregatedLevel}

def candidateOf (P : Platform) (o : Offer) : Candidate := ⟨o.venueId, o.price, quality P o.score⟩

def step (P : Platform) (side : Side) (best : Option Candidate) (o : Offer) : Option Candidate :=
  if isBetter P side (feePrice P o.price o.score.feeRate side) (quality P o.score) o.score.feeRate best then
    some (candidateOf P o)
  else best

theorem consider_eq (price : ℤ) (best : Option Candidate) (vq : VenueQuantity) :
    consider P side venues price best vq = (Offer.ofVenue venues price vq).elim best (step P side best) := by
  unfold consider Offer.ofVenue
  split_ifs
  · rfl
  · cases findScore venues vq.venueId <;> rfl

variable (P side venues) in
theorem foldl_level (level : AggregatedLevel) (best : Option Candidate) :
    (if level.displayed then level.venueBreakdown.foldl (consider P side venues level.price) best else best) =
      (offers venues [level]).foldl (step P side) best := by
  rw [offers_cons, offers, List.filter_nil, List.flatMap_nil, List.append_nil]
  split_ifs
  · rw [List.foldl_filterMap]
    congr 1
    funext best vq
    rw [consider_eq]
    cases Offer.ofVenue venues level.price vq <;> rfl
  · rfl

theorem offers_split (level : AggregatedLevel) (levels : List AggregatedLevel) :
    offers venues (level :: levels) = offers venues [level] ++ offers venues levels := by
  have hnil : offers venues [] = [] := rfl
  rw [offers_cons, offers_cons, hnil, List.append_nil]

/-- An urgent scan looks at every entry. -/
theorem scan_eq_foldl (hurgent : P.round (8 / 10) ≤ v.config.urgency) (levels : List AggregatedLevel)
    (best : Option Candidate) :
    v.scan P side venues levels best = (offers venues levels).foldl (step P side) best := by
  induction levels generalizing best with
  | nil => rfl
  | cons level levels ih =>
    rw [offers_split, List.foldl_append, ← foldl_level]
    unfold scan
    split_ifs
    · have hall : ¬((level.venueBreakdown.foldl (consider P side venues level.price) best).isSome = true ∧
          v.config.urgency < P.round (8 / 10)) := fun h => not_lt.mpr hurgent h.2
      simp only
      rw [if_neg hall, ih]
    · exact ih best

variable (P) in
theorem isBetter_iff (side : Side) (o b : Offer) :
    isBetter P side (feePrice P o.price o.score.feeRate side) (quality P o.score) o.score.feeRate
      (some (candidateOf P b)) = true ↔ Overtakes P side o b := by
  cases side <;> exact decide_eq_true_iff

variable (P) in
theorem foldl_step_eq (side : Side) (entries : List Offer) : entries.foldl (step P side) none =
    (survivor (Overtakes P side) entries).map (candidateOf P) := by
  have hstep (best : Option Offer) (o : Offer) : step P side (best.map (candidateOf P)) o =
      (List.argAux (Overtakes P side) best o).map (candidateOf P) := by
    cases best with
    | none => rfl
    | some b =>
      have hiff := isBetter_iff P side o b
      simp only [Option.map_some, step, List.argAux]
      by_cases h : Overtakes P side o b
      · rw [if_pos (hiff.mpr h), if_pos h, Option.map_some]
      · rw [if_neg (mt hiff.mp h), if_neg h, Option.map_some]
  change entries.foldl (step P side) (Option.map (candidateOf P) none) = _
  exact List.foldl_hom _ hstep

theorem scan_eq (hurgent : P.round (8 / 10) ≤ v.config.urgency) (side : Side) (venues : List VenueScore)
    (levels : List AggregatedLevel) : v.scan P side venues levels none =
      (survivor (Overtakes P side) (offers venues levels)).map (candidateOf P) := by
  rw [scan_eq_foldl hurgent, foldl_step_eq]

theorem bestKey_eq (P : Platform) (side : Side) (venues : List VenueScore) (levels : List AggregatedLevel) :
    bestKey P side venues levels =
      (survivor (Beats side (ownKey P side)) (offers venues levels)).map (ownKey P side) := by
  have hscan : BestPrice.scan P side venues levels none = _ := BestPrice.scan_ofWith levels none
  have hown {o : Offer} (ho : o ∈ offers venues levels) :
      chosenBy (BestPrice.feeAdjusted P) (BestPrice.computeVenueQuality P) side o = ownKey P side o :=
    Prod.ext (if_neg (offers_displayed ho)) rfl
  have hsame : survivor (Beats side (chosenBy (BestPrice.feeAdjusted P) (BestPrice.computeVenueQuality P) side))
      (offers venues levels) = survivor (Beats side (ownKey P side)) (offers venues levels) := by
    refine survivor_congr fun x hx y hy => ?_
    unfold Beats
    rw [hown hx, hown hy]
  unfold bestKey
  rw [hscan, BestPrice.scanWith_eq, hsame, Option.map_map, Option.map_map]
  cases hbest : survivor (Beats side (ownKey P side)) (offers venues levels) with
  | none => rfl
  | some o => exact congrArg some (hown (survivor_mem hbest))

end Scanning

section Agreement

variable {P : Platform} {v : Vwap} {order : Order} {nbbo : Nbbo} {book : AggregatedBook} {venues : List VenueScore}
  {levels : List AggregatedLevel} {now : ℤ} {s : Slice}

theorem findScore_offer {o : Offer} (h : o ∈ offers venues levels) : findScore venues o.venueId = some o.score := by
  obtain ⟨level, -, ho⟩ := List.mem_flatMap.mp h
  obtain ⟨vq, -, hoffer⟩ := List.mem_filterMap.mp ho
  unfold Offer.ofVenue at hoffer
  split_ifs at hoffer
  obtain ⟨score, hscore, rfl⟩ := Option.map_eq_some_iff.mp hoffer
  exact hscore

theorem slice_survivor (hurgent : P.round (8 / 10) ≤ v.config.urgency)
    (hs : s ∈ (v.getNextSlice P order nbbo book venues now).slices) :
    ∃ m ∈ survivor (Overtakes P order.side) (offers venues (book.opposite order.side)),
      sliceKey P order.side venues s = some (ownKey P order.side m) := by
  unfold getNextSlice at hs
  rw [scan_eq hurgent] at hs
  split_ifs at hs
  · simp at hs
  · simp at hs
  · cases hm : survivor (Overtakes P order.side) (offers venues (book.opposite order.side)) with
    | none => simp [hm] at hs
    | some m =>
      rw [hm] at hs
      obtain rfl : s = _ := by simpa using hs
      have hscore : findScore venues m.venueId = some m.score := findScore_offer (survivor_mem hm)
      refine ⟨m, rfl, ?_⟩
      simp only [sliceKey, candidateOf, hscore, Option.map_some]
      rfl

/-- What an urgent schedule selects is as good as what `BestPriceStrategy` selects just when it is an optimum
itself. -/
theorem agrees_iff_optimal (hurgent : P.round (8 / 10) ≤ v.config.urgency)
    (hs : s ∈ (v.getNextSlice P order nbbo book venues now).slices) :
    ∃ m ∈ survivor (Overtakes P order.side) (offers venues (book.opposite order.side)),
      (sliceKey P order.side venues s = bestKey P order.side venues (book.opposite order.side) ↔
        Optimal order.side (ownKey P order.side) (· ∈ offers venues (book.opposite order.side)) m) := by
  obtain ⟨m, hm, hkey⟩ := slice_survivor hurgent hs
  have hmem := survivor_mem hm
  have hsome : survivor (Beats order.side (ownKey P order.side)) (offers venues (book.opposite order.side)) ≠ none :=
    fun hnone => List.ne_nil_of_mem hmem (survivor_eq_none.mp hnone)
  obtain ⟨b, hb⟩ := Option.ne_none_iff_exists'.mp hsome
  refine ⟨m, hm, ?_⟩
  rw [hkey, bestKey_eq, hb, Option.map_some, Option.some_inj, (optimal_of_survivor hb).iff_key_eq hmem]

/-- Fees leave the entries in the order of their raw prices. -/
def Separated (P : Platform) (side : Side) (entries : List Offer) : Prop :=
  ∀ x ∈ entries, ∀ y ∈ entries, ∀ z ∈ entries, y.price < z.price →
    feePrice P y.price x.score.feeRate side < feePrice P z.price x.score.feeRate side

theorem overtakes_iff {side : Side} {entries : List Offer} (h : Separated P side entries) {x b : Offer}
    (hx : x ∈ entries) (hb : b ∈ entries) : Overtakes P side x b ↔ Beats side (rawKey P) x b := by
  have hup := h x hx x hx b hb
  have hdown := h x hx b hb x hx
  unfold Overtakes Beats rawKey
  rcases lt_trichotomy x.price b.price with hlt | heq | hgt
  · have hfee := hup hlt
    cases side <;> simp [Better, hlt, hfee, hlt.not_gt, hfee.not_gt, hlt.ne, hfee.ne]
  · rw [heq]
    cases side <;> simp [Better]
  · have hfee := hdown hgt
    cases side <;> simp [Better, hgt, hfee, hgt.not_gt, hfee.not_gt, hgt.ne', hfee.ne']

/-- An urgent schedule selects as `BestPriceStrategy` does just when the lead that passes from entry to entry,
each priced against the one before with its own fee, ends at an optimum. Where fees leave the raw prices in
order, this is the first entry that is best by raw price and quality. -/
theorem choice_agrees_iff (P : Platform) (v : Vwap) (order : Order) (nbbo : Nbbo) (book : AggregatedBook)
    (venues : List VenueScore) (now : ℤ) (s : Slice) (hurgent : P.round (8 / 10) ≤ v.config.urgency)
    (hs : s ∈ (v.getNextSlice P order nbbo book venues now).slices) :
    let side := order.side
    let entries := offers venues (book.opposite side)
    (sliceKey P side venues s = bestKey P side venues (book.opposite side) ↔
        ∃ first rest last, entries = first :: rest ∧ Succession (Overtakes P side) first rest last ∧
          Optimal side (ownKey P side) (· ∈ entries) last) ∧
      (Separated P side entries →
        (sliceKey P side venues s = bestKey P side venues (book.opposite side) ↔
          ∃ pre first post, entries = pre ++ first :: post ∧ (∀ x ∈ pre, Beats side (rawKey P) first x) ∧
            (∀ x ∈ post, ¬Beats side (rawKey P) x first) ∧ Optimal side (ownKey P side) (· ∈ entries) first)) := by
  intro side entries
  obtain ⟨m, hm, hagrees⟩ := agrees_iff_optimal hurgent hs
  rw [hagrees]
  refine ⟨?_, fun hsep => ?_⟩
  · obtain ⟨first, rest, hentries⟩ := List.exists_cons_of_ne_nil (List.ne_nil_of_mem (survivor_mem hm))
    rw [hentries] at hm
    constructor
    · exact fun h => ⟨first, rest, m, hentries, mem_survivor_cons.mp hm, h⟩
    · rintro ⟨first', rest', last, hentries', hlast, h⟩
      obtain ⟨rfl, rfl⟩ := List.cons_eq_cons.mp (hentries.symm.trans hentries')
      have hsame : m = last := Option.mem_unique hm (mem_survivor_cons.mpr hlast)
      rw [hsame]
      exact h
  · have hraw : m ∈ survivor (Beats side (rawKey P)) entries := by
      rwa [← survivor_congr fun x hx y hy => overtakes_iff hsep hx hy]
    constructor
    · intro h
      obtain ⟨pre, post, heq, hpre, hpost⟩ := mem_survivor_beats.mp hraw
      exact ⟨pre, m, post, heq, hpre, hpost, h⟩
    · rintro ⟨pre, first, post, heq, hpre, hpost, h⟩
      have hsame : m = first := Option.mem_unique hraw (mem_survivor_beats.mpr ⟨pre, post, heq, hpre, hpost⟩)
      rw [hsame]
      exact h

theorem agrees_of_equal_fees (hurgent : P.round (8 / 10) ≤ v.config.urgency)
    (hs : s ∈ (v.getNextSlice P order nbbo book venues now).slices)
    (hfees : ∀ vs ∈ venues, ∀ vs' ∈ venues, vs.feeRate = vs'.feeRate) :
    sliceKey P order.side venues s = bestKey P order.side venues (book.opposite order.side) := by
  obtain ⟨m, hm, hagrees⟩ := agrees_iff_optimal hurgent hs
  refine hagrees.mpr (optimal_of_survivor ?_)
  have hscored {o : Offer} (ho : o ∈ offers venues (book.opposite order.side)) : o.score ∈ venues :=
    List.mem_of_find?_eq_some (findScore_offer ho)
  have hsame : survivor (Overtakes P order.side) (offers venues (book.opposite order.side)) =
      survivor (Beats order.side (ownKey P order.side)) (offers venues (book.opposite order.side)) := by
    refine survivor_congr fun x hx y hy => ?_
    unfold Overtakes Beats ownKey chosenBy
    rw [hfees x.score (hscored hx) y.score (hscored hy)]
  rwa [← hsame]

def urgent : Vwap where
  config := { urgency := 9 / 10 }
  totalQuantity := 300
  endTime := 1000

def tenFromFirst : Slice := { venueId := 1, price := 1500, quantity := 10 }

theorem choice_agrees_iff_two_fees :
    sliceKey .exact .buy [BestPrice.cheapVenue, BestPrice.dearVenue] tenFromFirst =
      bestKey .exact .buy [BestPrice.cheapVenue, BestPrice.dearVenue] BestPrice.choiceBook.asks := by
  have hiff := choice_agrees_iff .exact urgent { quantity := 100 } BestPrice.choiceNbbo BestPrice.choiceBook
    [BestPrice.cheapVenue, BestPrice.dearVenue] 500 tenFromFirst (by decide +kernel) (by decide +kernel)
  refine hiff.1.mpr ⟨⟨1500, 1, 300, BestPrice.cheapVenue⟩, [⟨1500, 2, 100, BestPrice.dearVenue⟩],
    ⟨1500, 1, 300, BestPrice.cheapVenue⟩, rfl, .stays (by decide +kernel) (.done _), ?_⟩
  refine optimal_iff.mpr ⟨List.mem_cons_self, fun x hx => ?_⟩
  obtain rfl | rfl := List.mem_pair.mp hx
  · exact better_irrefl _
  · decide +kernel

def splitBook : AggregatedBook where
  asks := [{ price := 1500, totalQuantity := 200, venueBreakdown := [⟨2, 200⟩] },
    { price := 1501, totalQuantity := 200, venueBreakdown := [⟨1, 200⟩] }]
  bids := []
  bidsFit := Nat.zero_le maxDepth

/-- The dear venue keeps its lead: the cheap one compares with it as if it were as cheap. -/
theorem choice_misses_cheap_venue :
    let venues := [BestPrice.cheapVenue, BestPrice.dearVenue]
    BestPrice.choiceNbbo.valid = true ∧ (venues.map VenueScore.venueId).Nodup ∧
      Platform.exact.round (8 / 10) ≤ urgent.config.urgency ∧
      ∃ s ∈ (urgent.getNextSlice .exact { quantity := 100 } BestPrice.choiceNbbo splitBook venues 500).slices,
        sliceKey .exact .buy venues s ≠ bestKey .exact .buy venues splitBook.asks := by
  refine ⟨by decide, by decide, by decide +kernel, ⟨2, 1500, 10, .limit, .ioc⟩, by decide +kernel, ?_⟩
  decide +kernel

end Agreement

end Klett.Sor.Vwap
