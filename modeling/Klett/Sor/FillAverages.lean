import Mathlib.Data.List.Induction
import Klett.Lib.Rounding
import Klett.Sor.FillConsumers
import Klett.Sor.RiskOverflow

namespace Klett.Sor

open Klett.Lib

def FillRecord.priced (f : FillRecord) : ℤ × ℤ := (f.price, f.quantity)

namespace FillManager

section Averages

variable (m : FillManager)

def addToTotals (totals : ℤ × ℤ) (idx : ℕ) : ℤ × ℤ :=
  match m.allFills[idx]? with
  | none => totals
  | some f => (toInt64 (totals.1 + toInt64 (f.price * f.quantity)), toInt64 (totals.2 + f.quantity))

/-- The loop of both averages. Its totals are 64-bit words. -/
def averageOf (indices : List ℕ) : ℤ :=
  if indices.isEmpty then 0
  else
    let totals := indices.foldl m.addToTotals (0, 0)
    if totals.2 > 0 then totals.1.tdiv totals.2 else 0

def averageFillPrice (orderId : ℕ) : ℤ := m.averageOf (m.orderFills orderId)

def vwap (symbol : Symbol) : ℤ := m.averageOf (m.symbolFills symbol)

def recorded (fills : List FillRecord) : FillManager := fills.foldl recordFill {}

end Averages

section Indexing

structure Indexes (index : List ℕ) (fills : List FillRecord) (p : FillRecord → Bool) : Prop where
  bound : ∀ idx ∈ index, idx < fills.length
  read : (index.filterMap fun idx => fills[idx]?) = fills.filter p

structure Indexed (m : FillManager) : Prop where
  orders : ∀ id, Indexes (m.orderFills id) m.allFills fun f => f.orderId = id
  symbols : ∀ symbol, Indexes (m.symbolFills symbol) m.allFills fun f => f.symbol = symbol

variable {m : FillManager} {index : List ℕ} {fills : List FillRecord} {p : FillRecord → Bool}

theorem Indexes.record (h : Indexes index fills p) (f : FillRecord) :
    Indexes (if p f then index ++ [fills.length] else index) (fills ++ [f]) p := by
  have hread : (index.filterMap fun idx => (fills ++ [f])[idx]?) = fills.filter p := by
    rw [← h.read]
    apply List.filterMap_congr
    intro idx hidx
    exact List.getElem?_append_left (h.bound idx hidx)
  constructor
  · intro idx hidx
    rw [List.length_append, List.length_singleton]
    split_ifs at hidx
    · obtain hidx | hidx := List.mem_append.mp hidx
      · have hlt := h.bound idx hidx
        omega
      · rw [List.mem_singleton.mp hidx]
        omega
    · have hlt := h.bound idx hidx
      omega
  · rw [List.filter_append]
    split_ifs with hp
    · rw [List.filterMap_append, hread]
      simp [hp]
    · rw [hread]
      simp [hp]

theorem Indexed.recordFill (h : Indexed m) (f : FillRecord) : Indexed (m.recordFill f) where
  orders id := by
    have hrecord := (h.orders id).record f
    by_cases hid : f.orderId = id
    · subst hid
      simpa [FillManager.recordFill] using hrecord
    · simpa [FillManager.recordFill, hid, Function.update_of_ne (Ne.symm hid)] using hrecord
  symbols symbol := by
    have hrecord := (h.symbols symbol).record f
    by_cases hsymbol : f.symbol = symbol
    · subst hsymbol
      simpa [FillManager.recordFill] using hrecord
    · simpa [FillManager.recordFill, hsymbol, Function.update_of_ne (Ne.symm hsymbol)] using hrecord

theorem recorded_concat (fills : List FillRecord) (f : FillRecord) :
    recorded (fills ++ [f]) = (recorded fills).recordFill f :=
  List.foldl_concat _ _ _ _

theorem recorded_indexed (fills : List FillRecord) : Indexed (recorded fills) ∧ (recorded fills).allFills = fills := by
  induction fills using List.reverseRecOn with
  | nil =>
    have hnone (p : FillRecord → Bool) : Indexes [] [] p := ⟨List.forall_mem_nil _, rfl⟩
    exact ⟨⟨fun _ => hnone _, fun _ => hnone _⟩, rfl⟩
  | append_singleton fills f ih =>
    rw [recorded_concat]
    refine ⟨ih.1.recordFill f, ?_⟩
    change (recorded fills).allFills ++ [f] = _
    rw [ih.2]

end Indexing

section Words

def mean64 (l : List (ℤ × ℤ)) : ℤ :=
  if 0 < toInt64 (weight l) then (toInt64 (cost l)).tdiv (toInt64 (weight l)) else 0

variable {m : FillManager} {index : List ℕ} {p : FillRecord → Bool} {l : List (ℤ × ℤ)}

theorem addToTotals_words (c q : ℤ) (idx : ℕ) : m.addToTotals (toInt64 c, toInt64 q) idx =
    (m.allFills[idx]?).elim (toInt64 c, toInt64 q) fun f =>
      (toInt64 (c + f.price * f.quantity), toInt64 (q + f.quantity)) := by
  unfold addToTotals
  cases m.allFills[idx]? with
  | none => rfl
  | some f => simp

theorem foldl_addToTotals (c q : ℤ) (index : List ℕ) : index.foldl m.addToTotals (toInt64 c, toInt64 q) =
    (toInt64 (c + cost ((index.filterMap fun idx => m.allFills[idx]?).map FillRecord.priced)),
      toInt64 (q + weight ((index.filterMap fun idx => m.allFills[idx]?).map FillRecord.priced))) := by
  induction index generalizing c q with
  | nil => simp [cost, weight]
  | cons idx index ih =>
    rw [List.foldl_cons, List.filterMap_cons, addToTotals_words]
    cases m.allFills[idx]? with
    | none => exact ih c q
    | some f =>
      simp only [Option.elim_some, List.map_cons, cost_cons, weight_cons]
      rw [ih, ← add_assoc, ← add_assoc]
      rfl

theorem averageOf_eq (h : Indexes index m.allFills p) :
    m.averageOf index = mean64 ((m.allFills.filter p).map FillRecord.priced) := by
  have hzero : toInt64 0 = 0 := rfl
  have htotals := foldl_addToTotals (m := m) 0 0 index
  rw [h.read, zero_add, zero_add, hzero] at htotals
  unfold averageOf mean64
  cases index with
  | nil =>
    have hnone : m.allFills.filter p = [] := h.read.symm
    rw [hnone]
    rfl
  | cons idx index =>
    rw [if_neg (by simp)]
    simp only [htotals]

end Words

section Bounds

def Between (average : ℤ) (l : List (ℤ × ℤ)) : Prop := (∃ x ∈ l, x.1 ≤ average) ∧ ∃ x ∈ l, average ≤ x.1

/-- The words that the totals leave stand in such a proportion, by accident where the cost does not fit. -/
def WordsBetween (l : List (ℤ × ℤ)) : Prop :=
  0 < toInt64 (weight l) ∧ (∃ x ∈ l, x.1 * toInt64 (weight l) ≤ toInt64 (cost l)) ∧
    ∃ x ∈ l, toInt64 (cost l) < (x.1 + 1) * toInt64 (weight l)

instance (average : ℤ) (l : List (ℤ × ℤ)) : Decidable (Between average l) := inferInstanceAs (Decidable (_ ∧ _))

variable {l : List (ℤ × ℤ)} {c q p : ℤ}

theorem le_tdiv_iff (hq : 0 < q) (hp : 0 < p) : p ≤ c.tdiv q ↔ p * q ≤ c := by
  rcases le_or_gt 0 c with hc | hc
  · rw [Int.tdiv_eq_ediv_of_nonneg hc, Int.le_ediv_iff_mul_le hq]
  · have hneg := Int.tdiv_nonneg (neg_nonneg.mpr hc.le) hq.le
    rw [Int.neg_tdiv] at hneg
    have hpos : 0 < p * q := mul_pos hp hq
    constructor
    · intro h
      omega
    · intro h
      omega

theorem tdiv_le_iff (hq : 0 < q) (hp : 0 < p) : c.tdiv q ≤ p ↔ c < (p + 1) * q := by
  rw [← not_iff_not, not_le, not_lt]
  exact le_tdiv_iff hq (by omega)

theorem between_mean64 (hl : Positive l) : Between (mean64 l) l ↔ WordsBetween l := by
  unfold Between mean64 WordsBetween
  split_ifs with hq
  · simp only [hq, true_and]
    refine and_congr (exists_congr fun x => and_congr_right fun hx => ?_)
      (exists_congr fun x => and_congr_right fun hx => ?_)
    · exact le_tdiv_iff hq (hl x hx).1
    · exact tdiv_le_iff hq (hl x hx).1
  · refine iff_of_false ?_ fun h => hq h.1
    rintro ⟨⟨x, hx, hle⟩, -⟩
    exact absurd hle (not_le.mpr (hl x hx).1)

theorem words_of_fits (hl : Positive l) (hfit : cost l < 2 ^ 63) :
    toInt64 (weight l) = weight l ∧ toInt64 (cost l) = cost l := by
  have hpos := weight_nonneg hl
  have hle := weight_le_cost hl
  exact ⟨toInt64_eq ⟨by omega, by omega⟩, toInt64_eq ⟨by omega, by omega⟩⟩

theorem wordsBetween_of_fits (hl : Positive l) (hne : l ≠ []) (hfit : cost l < 2 ^ 63) : WordsBetween l := by
  have hpos := weight_pos hl hne
  obtain ⟨hweight, hcost⟩ := words_of_fits hl hfit
  unfold WordsBetween
  rw [hweight, hcost]
  refine ⟨hpos, exists_le_mean hne hl, ?_⟩
  obtain ⟨x, hx, hbelow⟩ := exists_mean_le hne hl
  refine ⟨x, hx, ?_⟩
  rw [add_mul, one_mul]
  omega

theorem between_mean64_iff (hl : Positive l) (hne : l ≠ []) :
    Between (mean64 l) l ↔ cost l < 2 ^ 63 ∨ 2 ^ 63 ≤ cost l ∧ WordsBetween l := by
  rw [between_mean64 hl]
  constructor
  · intro h
    exact (lt_or_ge (cost l) (2 ^ 63)).imp_right fun hbig => ⟨hbig, h⟩
  · rintro (hfit | ⟨-, h⟩)
    · exact wordsBetween_of_fits hl hne hfit
    · exact h

def pricedOf (fills : List FillRecord) (p : FillRecord → Bool) : List (ℤ × ℤ) :=
  (fills.filter p).map FillRecord.priced

theorem averageFillPrice_recorded (fills : List FillRecord) (id : ℕ) :
    (recorded fills).averageFillPrice id = mean64 (pricedOf fills fun f => f.orderId = id) := by
  obtain ⟨hindexed, hall⟩ := recorded_indexed fills
  refine (averageOf_eq (hindexed.orders id)).trans ?_
  rw [hall]
  rfl

theorem vwap_recorded (fills : List FillRecord) (symbol : Symbol) :
    (recorded fills).vwap symbol = mean64 (pricedOf fills fun f => f.symbol = symbol) := by
  obtain ⟨hindexed, hall⟩ := recorded_indexed fills
  refine (averageOf_eq (hindexed.symbols symbol)).trans ?_
  rw [hall]
  rfl

theorem pricedOf_positive {fills : List FillRecord} (hpos : ∀ f ∈ fills, 0 < f.price ∧ 0 < f.quantity)
    (p : FillRecord → Bool) : Positive (pricedOf fills p) := by
  intro x hx
  obtain ⟨f, hf, rfl⟩ := List.mem_map.mp hx
  exact hpos f (List.mem_of_mem_filter hf)

/-- The averages stay between the prices just when the cost fits into 64 bits, accidents apart. -/
theorem averages_between_iff (fills : List FillRecord) (hpos : ∀ f ∈ fills, 0 < f.price ∧ 0 < f.quantity) :
    (∀ id, let l := pricedOf fills fun f => f.orderId = id
      l ≠ [] → (Between ((recorded fills).averageFillPrice id) l ↔
        cost l < 2 ^ 63 ∨ 2 ^ 63 ≤ cost l ∧ WordsBetween l)) ∧
      ∀ symbol, let l := pricedOf fills fun f => f.symbol = symbol
        l ≠ [] → (Between ((recorded fills).vwap symbol) l ↔
          cost l < 2 ^ 63 ∨ 2 ^ 63 ≤ cost l ∧ WordsBetween l) := by
  constructor
  · intro id l hne
    rw [averageFillPrice_recorded]
    exact between_mean64_iff (pricedOf_positive hpos _) hne
  · intro symbol l hne
    rw [vwap_recorded]
    exact between_mean64_iff (pricedOf_positive hpos _) hne

theorem averages_between_hundred : Between ((recorded [{ price := 10000000000, quantity := 100 },
    { price := 10100000000, quantity := 300 }]).vwap default) [(10000000000, 100), (10100000000, 300)] := by
  have hiff := (averages_between_iff [{ price := 10000000000, quantity := 100 },
    { price := 10100000000, quantity := 300 }] (by decide)).2 default
  exact (hiff (by decide)).mpr (.inl (by decide))

theorem averages_overflow :
    let fills : List FillRecord := [{ orderId := 1, price := 10000000000, quantity := 1000000000 }]
    (∀ f ∈ fills, 0 < f.price ∧ f.price < 2 ^ 63 ∧ 0 < f.quantity ∧ f.quantity < 2 ^ 63) ∧
      (recorded fills).averageFillPrice 1 = -8446744073 ∧
      ¬Between ((recorded fills).averageFillPrice 1) (pricedOf fills fun f => f.orderId = 1) ∧
      ¬Between ((recorded fills).vwap default) (pricedOf fills fun f => f.symbol = default) := by
  decide

end Bounds

end FillManager

end Klett.Sor
