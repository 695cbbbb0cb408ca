import Klett.Lib.Best
import Klett.Sor.BestPrice

namespace Klett.Sor

open Klett.Lib

structure Offer where
  price : ℤ
  venueId : ℕ
  quantity : ℤ
  score : VenueScore

section Offers

variable (venues : List VenueScore) (levels : List AggregatedLevel)

def Offer.ofVenue (price : ℤ) (vq : VenueQuantity) : Option Offer :=
  if vq.quantity ≤ 0 then none
  else (findScore venues vq.venueId).map fun score => ⟨price, vq.venueId, vq.quantity, score⟩

/-- The entries a scan of the book stops at, in its order. -/
def offers : List Offer :=
  (levels.filter fun level => level.displayed).flatMap fun level =>
    level.venueBreakdown.filterMap (Offer.ofVenue venues level.price)

/-- An entry with positive quantity of an available venue at a valid level. -/
structure Offer.Eligible (o : Offer) : Prop where
  shown : ∃ level ∈ levels, level.displayed ∧ level.price = o.price ∧ ⟨o.venueId, o.quantity⟩ ∈ level.venueBreakdown
  positive : 0 < o.quantity
  scored : o.score ∈ venues ∧ o.score.venueId = o.venueId
  available : o.score.isAvailable = true

variable {venues levels} {level : AggregatedLevel} {venues' : List VenueScore}

theorem findScore_eq_some (hids : (venues.map VenueScore.venueId).Nodup) {v : ℕ} {vs : VenueScore} :
    findScore venues v = some vs ↔ (vs ∈ venues ∧ vs.venueId = v) ∧ vs.isAvailable = true := by
  constructor
  · intro h
    have hfound := List.find?_some h
    obtain ⟨hid, havail⟩ := Bool.and_eq_true_iff.mp hfound
    exact ⟨⟨List.mem_of_find?_eq_some h, of_decide_eq_true hid⟩, havail⟩
  · rintro ⟨⟨hmem, rfl⟩, havail⟩
    have hsome : (findScore venues vs.venueId).isSome = true :=
      List.find?_isSome.mpr ⟨vs, hmem, by simp [havail]⟩
    obtain ⟨found, hfound⟩ := Option.isSome_iff_exists.mp hsome
    have hmatch := List.find?_some hfound
    obtain ⟨hid, -⟩ := Bool.and_eq_true_iff.mp hmatch
    rw [hfound, List.inj_on_of_nodup_map hids (List.mem_of_find?_eq_some hfound) hmem (of_decide_eq_true hid)]

theorem findScore_perm (hids : (venues.map VenueScore.venueId).Nodup) (h : venues.Perm venues') (v : ℕ) :
    findScore venues' v = findScore venues v := by
  have hids' : (venues'.map VenueScore.venueId).Nodup := (h.map _).nodup_iff.mp hids
  ext vs
  rw [findScore_eq_some hids, findScore_eq_some hids', h.mem_iff]

theorem offers_perm (hids : (venues.map VenueScore.venueId).Nodup) (h : venues.Perm venues')
    (levels : List AggregatedLevel) : offers venues' levels = offers venues levels := by
  have hsame : findScore venues' = findScore venues := funext (findScore_perm hids h)
  have hoffer : Offer.ofVenue venues' = Offer.ofVenue venues := by
    funext price vq
    unfold Offer.ofVenue
    rw [hsame]
  unfold offers
  rw [hoffer]

theorem offers_cons : offers venues (level :: levels) =
    (if level.displayed then level.venueBreakdown.filterMap (Offer.ofVenue venues level.price) else []) ++
      offers venues levels := by
  unfold offers
  by_cases h : level.displayed <;> simp [h]

theorem mem_offers (hids : (venues.map VenueScore.venueId).Nodup) {o : Offer} :
    o ∈ offers venues levels ↔ o.Eligible venues levels := by
  unfold offers
  rw [List.mem_flatMap]
  constructor
  · rintro ⟨level, hlevel, ho⟩
    obtain ⟨hmem, hd⟩ := List.mem_filter.mp hlevel
    obtain ⟨vq, hvq, hoffer⟩ := List.mem_filterMap.mp ho
    unfold Offer.ofVenue at hoffer
    split_ifs at hoffer with hq
    obtain ⟨score, hscore, rfl⟩ := Option.map_eq_some_iff.mp hoffer
    obtain ⟨hscored, havail⟩ := (findScore_eq_some hids).mp hscore
    exact ⟨⟨level, hmem, of_decide_eq_true hd, rfl, hvq⟩, not_le.mp hq, hscored, havail⟩
  · rintro ⟨⟨level, hmem, hd, hprice, hvq⟩, hq, hscored, havail⟩
    refine ⟨level, List.mem_filter.mpr ⟨hmem, decide_eq_true hd⟩, List.mem_filterMap.mpr ⟨_, hvq, ?_⟩⟩
    unfold Offer.ofVenue
    rw [if_neg (not_le.mpr hq), (findScore_eq_some hids).mpr ⟨hscored, havail⟩, Option.map_some, hprice]

theorem offers_nil (levels : List AggregatedLevel) : offers [] levels = [] := by
  apply List.eq_nil_iff_forall_not_mem.mpr
  intro o ho
  have hids : (([] : List VenueScore).map VenueScore.venueId).Nodup := List.nodup_nil
  cases ((mem_offers hids).mp ho).scored.1

theorem offers_displayed {o : Offer} (h : o ∈ offers venues levels) : o.price ≠ invalidPrice := by
  obtain ⟨level, hlevel, ho⟩ := List.mem_flatMap.mp h
  obtain ⟨-, hd⟩ := List.mem_filter.mp hlevel
  obtain ⟨vq, -, hoffer⟩ := List.mem_filterMap.mp ho
  unfold Offer.ofVenue at hoffer
  split_ifs at hoffer
  obtain ⟨score, -, rfl⟩ := Option.map_eq_some_iff.mp hoffer
  exact (of_decide_eq_true hd).1

end Offers

section Better

variable {α β : Type*} [LinearOrder α] [LinearOrder β]

def Better : Side → α × β → α × β → Prop
  | .buy, x, y => x.1 < y.1 ∨ x.1 = y.1 ∧ x.2 > y.2
  | .sell, x, y => x.1 > y.1 ∨ x.1 = y.1 ∧ x.2 > y.2

instance (side : Side) : DecidableRel (Better (α := α) (β := β) side) := fun x y => by
  cases side <;> exact inferInstanceAs (Decidable (_ ∨ _))

def Beats (side : Side) (key : Offer → α × β) (x y : Offer) : Prop := Better side (key x) (key y)

instance (side : Side) (key : Offer → α × β) : DecidableRel (Beats side key) := fun _ _ =>
  inferInstanceAs (Decidable (Better _ _ _))

/-- Of some entries one that none has a better price than, and none of the same price a higher quality. -/
def Optimal (side : Side) (key : Offer → α × β) (entry : Offer → Prop) (o : Offer) : Prop :=
  entry o ∧ match side with
    | .buy => ∀ x, entry x → (key o).1 ≤ (key x).1 ∧ ((key x).1 = (key o).1 → (key x).2 ≤ (key o).2)
    | .sell => ∀ x, entry x → (key x).1 ≤ (key o).1 ∧ ((key x).1 = (key o).1 → (key x).2 ≤ (key o).2)

variable {side : Side} {x y z : α × β} {key : Offer → α × β} {entry : Offer → Prop} {o : Offer}

theorem better_irrefl (x : α × β) : ¬Better side x x := by
  cases side <;> simp [Better]

theorem better_trans (h : Better side x y) (h' : Better side y z) : Better side x z := by
  cases side with
  | buy =>
    rcases h with h | ⟨h, hq⟩
    · rcases h' with h' | ⟨h', -⟩
      · exact .inl (h.trans h')
      · exact .inl (h.trans_eq h')
    · rcases h' with h' | ⟨h', hq'⟩
      · exact .inl (h.trans_lt h')
      · exact .inr ⟨h.trans h', hq'.trans hq⟩
  | sell =>
    rcases h with h | ⟨h, hq⟩
    · rcases h' with h' | ⟨h', -⟩
      · exact .inl (h'.trans h)
      · exact .inl (h'.symm.trans_lt h)
    · rcases h' with h' | ⟨h', hq'⟩
      · exact .inl (h'.trans_eq h.symm)
      · exact .inr ⟨h.trans h', hq'.trans hq⟩

theorem not_better : ¬Better side x y ↔
    match side with
    | .buy => y.1 ≤ x.1 ∧ (x.1 = y.1 → x.2 ≤ y.2)
    | .sell => x.1 ≤ y.1 ∧ (x.1 = y.1 → x.2 ≤ y.2) := by
  cases side <;> simp [Better]

theorem eq_of_not_better (h : ¬Better side x y) (h' : ¬Better side y x) : x = y := by
  rw [not_better] at h h'
  cases side with
  | buy =>
    have hprice := le_antisymm h'.1 h.1
    exact Prod.ext hprice (le_antisymm (h.2 hprice) (h'.2 hprice.symm))
  | sell =>
    have hprice := le_antisymm h.1 h'.1
    exact Prod.ext hprice (le_antisymm (h.2 hprice) (h'.2 hprice.symm))

theorem better_of_not_better (h : Better side x y) (h' : ¬Better side z y) : Better side x z := by
  by_contra hnot
  by_cases hzx : Better side z x
  · exact h' (better_trans hzx h)
  · rw [eq_of_not_better hnot hzx] at h
    exact h' h

theorem optimal_iff : Optimal side key entry o ↔ entry o ∧ ∀ x, entry x → ¬Beats side key x o := by
  cases side <;> simp only [Optimal, Beats, not_better]

theorem mem_survivor_beats {l : List Offer} : o ∈ survivor (Beats side key) l ↔
    ∃ pre post, l = pre ++ o :: post ∧ (∀ x ∈ pre, Beats side key o x) ∧ ∀ x ∈ post, ¬Beats side key x o :=
  mem_survivor_first (fun x => better_irrefl (key x)) (fun _ _ _ => better_trans) fun _ _ _ => better_of_not_better

theorem Optimal.iff_key_eq {b : Offer} (h : Optimal side key entry b) (ho : entry o) :
    Optimal side key entry o ↔ key o = key b := by
  rw [optimal_iff] at h ⊢
  constructor
  · exact fun h' => eq_of_not_better (h.2 o ho) (h'.2 b h.1)
  · intro heq
    refine ⟨ho, fun x hx => ?_⟩
    unfold Beats
    rw [heq]
    exact h.2 x hx

theorem optimal_of_survivor {l : List Offer} (h : o ∈ survivor (Beats side key) l) :
    Optimal side key (· ∈ l) o := by
  refine optimal_iff.mpr ⟨survivor_mem h, fun x hx => ?_⟩
  exact List.not_of_mem_foldl_argAux (Beats side key) ⟨fun x => better_irrefl (key x)⟩
    ⟨fun _ _ _ => better_trans⟩ hx h

end Better

namespace BestPrice

section Generic

/-! `route` with any fee adjustment and any quality. -/

variable {α β : Type*} [LinearOrder α] [LinearOrder β] (fee : ℤ → ℚ → Side → α) (quality : VenueScore → β)

structure CandidateWith (α β : Type*) where
  venueId : ℕ
  feeAdjPrice : α
  rawPrice : ℤ
  quality : β
  available : ℤ

def isBetterWith (side : Side) (adj : α) (q : β) : Option (CandidateWith α β) → Bool
  | none => true
  | some best =>
    match side with
    | .buy => adj < best.feeAdjPrice ∨ adj = best.feeAdjPrice ∧ q > best.quality
    | .sell => adj > best.feeAdjPrice ∨ adj = best.feeAdjPrice ∧ q > best.quality

def considerWith (side : Side) (venues : List VenueScore) (price : ℤ) (best : Option (CandidateWith α β))
    (vq : VenueQuantity) : Option (CandidateWith α β) :=
  if vq.quantity ≤ 0 then best
  else
    match findScore venues vq.venueId with
    | none => best
    | some score =>
      let adj := fee price score.feeRate side
      let q := quality score
      if isBetterWith side adj q best then some ⟨vq.venueId, adj, price, q, vq.quantity⟩ else best

def scanWith (side : Side) (venues : List VenueScore) :
    List AggregatedLevel → Option (CandidateWith α β) → Option (CandidateWith α β)
  | [], best => best
  | level :: levels, best =>
    if level.displayed then
      scanWith side venues levels (level.venueBreakdown.foldl (considerWith fee quality side venues level.price) best)
    else scanWith side venues levels best

def routeWith (order : Order) (nbbo : Nbbo) (book : AggregatedBook) (venues : List VenueScore) : RoutingDecision :=
  if venues.isEmpty ∨ !nbbo.valid then {}
  else if order.leavesQty ≤ 0 then {}
  else
    match scanWith fee quality order.side venues (book.opposite order.side) none with
    | none => {}
    | some best => ⟨[{
        venueId := best.venueId
        price := best.rawPrice
        quantity := order.leavesQty
        type := order.type
        tif := order.tif }]⟩

def chosenBy (side : Side) (o : Offer) : α × β := (fee o.price o.score.feeRate side, quality o.score)

def candidateOf (side : Side) (o : Offer) : CandidateWith α β :=
  ⟨o.venueId, fee o.price o.score.feeRate side, o.price, quality o.score, o.quantity⟩

def stepWith (side : Side) (best : Option (CandidateWith α β)) (o : Offer) : Option (CandidateWith α β) :=
  let candidate := candidateOf fee quality side o
  if isBetterWith side candidate.feeAdjPrice candidate.quality best then some candidate else best

variable {fee quality} {side : Side} {venues : List VenueScore}

theorem considerWith_eq (price : ℤ) (best : Option (CandidateWith α β)) (vq : VenueQuantity) :
    considerWith fee quality side venues price best vq =
      (Offer.ofVenue venues price vq).elim best (stepWith fee quality side best) := by
  unfold considerWith Offer.ofVenue
  split_ifs
  · rfl
  · cases findScore venues vq.venueId <;> rfl

theorem scanWith_eq_foldl (levels : List AggregatedLevel) (best : Option (CandidateWith α β)) :
    scanWith fee quality side venues levels best = (offers venues levels).foldl (stepWith fee quality side) best := by
  induction levels generalizing best with
  | nil => rfl
  | cons level levels ih =>
    rw [offers_cons, List.foldl_append]
    unfold scanWith
    split_ifs
    · rw [ih, List.foldl_filterMap]
      congr 2
      funext best vq
      rw [considerWith_eq]
      cases Offer.ofVenue venues level.price vq <;> rfl
    · exact ih best

variable (fee quality) in
theorem isBetterWith_iff (side : Side) (o b : Offer) :
    isBetterWith side (candidateOf fee quality side o).feeAdjPrice (candidateOf fee quality side o).quality
        (some (candidateOf fee quality side b)) = true ↔
      Beats side (chosenBy fee quality side) o b := by
  cases side <;> exact decide_eq_true_iff

theorem scanWith_eq (fee : ℤ → ℚ → Side → α) (quality : VenueScore → β) (side : Side) (venues : List VenueScore)
    (levels : List AggregatedLevel) : scanWith fee quality side venues levels none =
      (survivor (Beats side (chosenBy fee quality side)) (offers venues levels)).map (candidateOf fee quality side) := by
  have hstep (best : Option Offer) (o : Offer) :
      stepWith fee quality side (best.map (candidateOf fee quality side)) o =
        (List.argAux (Beats side (chosenBy fee quality side)) best o).map (candidateOf fee quality side) := by
    cases best with
    | none => rfl
    | some b =>
      have hiff := isBetterWith_iff fee quality side o b
      simp only [Option.map_some, stepWith, List.argAux]
      by_cases h : Beats side (chosenBy fee quality side) o b
      · rw [if_pos (hiff.mpr h), if_pos h, Option.map_some]
      · rw [if_neg (mt hiff.mp h), if_neg h, Option.map_some]
  rw [scanWith_eq_foldl]
  change (offers venues levels).foldl (stepWith fee quality side) (Option.map (candidateOf fee quality side) none) = _
  exact List.foldl_hom _ hstep

end Generic

section Choice

variable {P : Platform} {side : Side} {venues : List VenueScore}

def Candidate.ofWith (c : CandidateWith ℤ ℚ) : Candidate :=
  ⟨c.venueId, c.feeAdjPrice, c.rawPrice, c.quality, c.available⟩

theorem isBetter_ofWith (adj : ℤ) (q : ℚ) (best : Option (CandidateWith ℤ ℚ)) :
    isBetter side adj q (best.map Candidate.ofWith) = isBetterWith side adj q best := by
  cases best with
  | none => rfl
  | some b => cases side <;> rfl

theorem consider_ofWith (price : ℤ) (best : Option (CandidateWith ℤ ℚ)) (vq : VenueQuantity) :
    consider P side venues price (best.map Candidate.ofWith) vq =
      (considerWith (feeAdjusted P) (computeVenueQuality P) side venues price best vq).map Candidate.ofWith := by
  unfold consider considerWith
  split_ifs
  · rfl
  · cases findScore venues vq.venueId with
    | none => rfl
    | some score =>
      simp only [isBetter_ofWith]
      split_ifs <;> rfl

theorem scan_ofWith (levels : List AggregatedLevel) (best : Option (CandidateWith ℤ ℚ)) :
    scan P side venues levels (best.map Candidate.ofWith) =
      (scanWith (feeAdjusted P) (computeVenueQuality P) side venues levels best).map Candidate.ofWith := by
  induction levels generalizing best with
  | nil => rfl
  | cons level levels ih =>
    unfold scan scanWith
    split_ifs
    · rw [← ih, List.foldl_hom (Option.map Candidate.ofWith) (consider_ofWith level.price)]
    · exact ih best

theorem route_eq (P : Platform) (order : Order) (nbbo : Nbbo) (book : AggregatedBook) (venues : List VenueScore) :
    route P order nbbo book venues =
      routeWith (feeAdjusted P) (computeVenueQuality P) order nbbo book venues := by
  have hscan : scan P order.side venues (book.opposite order.side) none = _ :=
    scan_ofWith (book.opposite order.side) none
  unfold route routeWith
  rw [hscan]
  cases scanWith (feeAdjusted P) (computeVenueQuality P) order.side venues (book.opposite order.side) none <;> rfl

variable {α β : Type*} [LinearOrder α] [LinearOrder β]

/-- Whatever the fees and the quality are, the choice is an optimum, and the order of the scores has no say
in it. -/
theorem route_optimal (fee : ℤ → ℚ → Side → α) (quality : VenueScore → β) (order : Order) (nbbo : Nbbo)
    (book : AggregatedBook) (venues : List VenueScore) (hids : (venues.map VenueScore.venueId).Nodup) :
    let entry := Offer.Eligible venues (book.opposite order.side)
    let d := routeWith fee quality order nbbo book venues
    (∀ s ∈ d.slices, ∃ o, Optimal order.side (chosenBy fee quality order.side) entry o ∧
        s.venueId = o.venueId ∧ s.price = o.price) ∧
      (nbbo.valid = true → 0 < order.leavesQty → (d.slices ≠ [] ↔ ∃ o, entry o)) ∧
      ∀ venues', venues.Perm venues' → routeWith fee quality order nbbo book venues' = d := by
  have hentry : (· ∈ offers venues (book.opposite order.side)) = Offer.Eligible venues (book.opposite order.side) :=
    funext fun _ => propext (mem_offers hids)
  have hscan := scanWith_eq fee quality order.side venues (book.opposite order.side)
  refine ⟨fun s hs => ?_, fun hvalid hleaves => ?_, fun venues' hperm => ?_⟩
  · unfold routeWith at hs
    rw [hscan] at hs
    split_ifs at hs
    · simp at hs
    · simp at hs
    · cases hbest : survivor (Beats order.side (chosenBy fee quality order.side))
          (offers venues (book.opposite order.side)) with
      | none => simp [hbest] at hs
      | some o =>
        rw [hbest] at hs
        obtain rfl : s = _ := by simpa using hs
        exact ⟨o, hentry ▸ optimal_of_survivor hbest, rfl, rfl⟩
  · have hsome : (∃ o, o ∈ offers venues (book.opposite order.side)) ↔
        survivor (Beats order.side (chosenBy fee quality order.side)) (offers venues (book.opposite order.side)) ≠
          none := by
      rw [Ne, survivor_eq_none, List.eq_nil_iff_forall_not_mem, not_forall_not]
    rw [← hentry, hsome]
    unfold routeWith
    rw [hscan]
    split_ifs with hempty hdone
    · have hnil : venues = [] := by simpa [hvalid] using hempty
      rw [hnil]
      simp [offers_nil, survivor]
    · exact absurd hleaves (not_lt.mpr hdone)
    · cases survivor (Beats order.side (chosenBy fee quality order.side)) (offers venues (book.opposite order.side))
        with
      | none => simp
      | some o => simp
  · unfold routeWith
    rw [scanWith_eq, hscan, offers_perm hids hperm, hperm.isEmpty_eq]

def choiceBook : AggregatedBook where
  asks := [{ price := 1500, totalQuantity := 400, venueBreakdown := [⟨1, 300⟩, ⟨2, 100⟩] }]
  bids := []
  bidsFit := Nat.zero_le maxDepth

def choiceNbbo : Nbbo := { bestBid := 1490, bestBidQty := 100, bestAsk := 1500, bestAskQty := 400 }

def cheapVenue : VenueScore := { venueId := 1, feeRate := 1 / 1000 }

def dearVenue : VenueScore := { venueId := 2, feeRate := 3 / 1000 }

theorem route_optimal_two_fees :
    let choose := routeWith (feeAdjusted .exact) (computeVenueQuality .exact) { quantity := 100 } choiceNbbo choiceBook
    (choose [cheapVenue, dearVenue]).slices ≠ [] ∧
      choose [dearVenue, cheapVenue] = choose [cheapVenue, dearVenue] := by
  obtain ⟨-, hsome, hperm⟩ := route_optimal (feeAdjusted .exact) (computeVenueQuality .exact) { quantity := 100 }
    choiceNbbo choiceBook [cheapVenue, dearVenue] (by decide)
  refine ⟨(hsome (by decide) (by decide)).mpr ⟨⟨1500, 1, 300, cheapVenue⟩, ?_⟩, hperm _ (.swap _ _ _)⟩
  exact ⟨⟨_, List.mem_cons_self, by decide, rfl, List.mem_cons_self⟩, by decide, ⟨List.mem_cons_self, rfl⟩, rfl⟩

end Choice

end BestPrice

end Klett.Sor
