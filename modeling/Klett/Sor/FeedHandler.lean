import Klett.Lib.Double
import Klett.Lib.Machine
import Klett.Sor.Routing
import Klett.Sor.SortedInsertion

namespace Klett.Sor

open Klett.Lib MarketDataAggregator

structure CountedBook where
  symbol : Symbol
  venueId : ℕ
  bids : CountedSide := .empty
  asks : CountedSide := .empty
  sequence : ℕ := 0

namespace CountedBook

variable (book : CountedBook)

def bestBid : ℤ := book.bids.levels.head?.elim invalidPrice fun lvl => lvl.price
def bestAsk : ℤ := book.asks.levels.head?.elim invalidPrice fun lvl => lvl.price

def isCrossed : Prop := book.bestBid ≠ invalidPrice ∧ book.bestAsk ≠ invalidPrice ∧ book.bestBid ≥ book.bestAsk

def onSide : Side → CountedSide
  | .buy => book.bids
  | .sell => book.asks

end CountedBook

structure FeedConfig where
  symbol : Symbol := default
  venueId : ℕ := 0
  initialMidPrice : ℤ := 100 * priceScale
  tickSize : ℤ := 1000000
  maxDepth : ℤ := 10
  baseQuantity : ℤ := 100
  volatility : Double := .finite (1 / 1000)
  rngSeed : UInt64 := 0x12345678DEADBEEF

structure SimulatedFeedHandler where
  book : CountedBook
  running : Bool := false
  currentMid : ℤ
  sequence : ℕ := 0
  rngState : UInt64

namespace SimulatedFeedHandler

section Model

inductive Action
  | start
  | stop
  | generateTick

def nextRandom (x : UInt64) : UInt64 :=
  let x := x ^^^ (x <<< 13)
  let x := x ^^^ (x >>> 7)
  x ^^^ (x <<< 17)

def toUInt64 (z : ℤ) : ℕ := (z % 2 ^ 64).toNat

def toInt64 (n : ℕ) : ℤ := (n : ℤ).bmod (2 ^ 64)

variable (P : Platform) (outside : ℤ) (config : FeedConfig)

def init : SimulatedFeedHandler where
  book := { symbol := config.symbol, venueId := config.venueId }
  currentMid := config.initialMidPrice
  rngState := config.rngSeed

/-- No language rule says what becomes of an infinite or undefined `double` as an integer: that is `outside`. -/
def maxStepTicks (mid : ℤ) : ℤ :=
  max 1 <|
    match config.volatility with
    | .finite v => Platform.truncate (P.div (P.mul v (toDouble P mid)) (toDouble P config.tickSize))
    | _ => outside

def randomWalk (mid : ℤ) (rng : UInt64) : ℤ × UInt64 :=
  let r := nextRandom rng
  let maxStep := maxStepTicks P outside config mid
  let step := toInt64 (r.toNat % toUInt64 (2 * maxStep + 1)) - maxStep
  (mid + step * config.tickSize, r)

def randomLevel (price : ℤ) (rng : UInt64) : CountedLevel × UInt64 :=
  let r := nextRandom rng
  let base := config.baseQuantity
  let qty := base.tdiv 2 + toInt64 (r.toNat % toUInt64 ((base * 3).tdiv 2 + 1))
  let counted := nextRandom r
  ({ price := price
     quantity := if qty ≤ 0 then 1 else qty
     orderCount := (1 + counted % 10).toNat }, counted)

def fillSide (isBid : Bool) (price : ℕ → ℤ) (ends : ℤ → Bool) :
    ℕ → ℕ → CountedSide → UInt64 → CountedSide × UInt64
  | 0, _, side, rng => (side, rng)
  | n + 1, i, side, rng =>
    if ends (price i) then (side, rng)
    else
      let (level, rng) := randomLevel config (price i) rng
      fillSide isBid price ends n (i + 1) (side.insertSorted level isBid) rng

def depth : ℤ := min config.maxDepth maxDepth

def fillBids (bestBid : ℤ) : UInt64 → CountedSide × UInt64 :=
  fillSide config true (fun i => bestBid - i * config.tickSize) (fun price => price ≤ 0) (depth config).toNat 0 .empty

def fillAsks (bestAsk : ℤ) : UInt64 → CountedSide × UInt64 :=
  fillSide config false (fun i => bestAsk + i * config.tickSize) (fun _ => false) (depth config).toNat 0 .empty

def rebuildBook (book : CountedBook) (mid : ℤ) (rng : UInt64) : CountedBook × UInt64 :=
  let r := nextRandom rng
  let spreadTicks := 2 + r % 3
  let half := (spreadTicks / 2).toNat * config.tickSize
  let half := if half < config.tickSize then config.tickSize else half
  let bestBid := mid - half
  let bestAsk := mid + half
  let bestAsk := if bestAsk ≤ bestBid then bestBid + config.tickSize else bestAsk
  let (bids, rng) := fillBids config bestBid r
  let (asks, rng) := fillAsks config bestAsk rng
  ({ book with bids := bids, asks := asks }, rng)

def generateTick (f : SimulatedFeedHandler) : SimulatedFeedHandler × List CountedBook :=
  if !f.running then (f, [])
  else
    let (mid, rng) := randomWalk P outside config f.currentMid f.rngState
    let mid := if mid < config.tickSize then config.tickSize else mid
    let (book, rng) := rebuildBook config f.book mid rng
    let sequence := (f.sequence + 1) % 2 ^ 64
    let book := { book with sequence := sequence }
    ({ f with book := book, currentMid := mid, sequence := sequence, rngState := rng }, [book])

def act (f : SimulatedFeedHandler) : Action → SimulatedFeedHandler × List CountedBook
  | .start => ({ f with running := true }, [])
  | .stop => ({ f with running := false }, [])
  | .generateTick => generateTick P outside config f

def machine : Machine SimulatedFeedHandler Action CountedBook where
  step f a := some (act P outside config f a)

end Model

section Books

variable {config : FeedConfig} {side : Side} {s : CountedSide}

structure WellFormed (config : FeedConfig) (book : CountedBook) : Prop where
  uncrossed : ¬book.isCrossed
  strict : ∀ side, Ranked.Strict (CountedSide.rank side) (book.onSide side).levels
  depth : ∀ side, ((book.onSide side).levels.length : ℤ) ≤ max 0 (min config.maxDepth maxDepth)
  positive : ∀ side, ∀ lvl ∈ (book.onSide side).levels, 0 < lvl.price ∧ 0 < lvl.quantity

variable (config) in
theorem randomLevel_positive (price : ℤ) (rng : UInt64) :
    (randomLevel config price rng).1.price = price ∧ 0 < (randomLevel config price rng).1.quantity := by
  unfold randomLevel
  refine ⟨rfl, ?_⟩
  simp only
  split_ifs
  · exact Int.one_pos
  · omega

structure Filled (side : Side) (price : ℕ → ℤ) (ends : ℤ → Bool) (n : ℕ) (s : CountedSide) : Prop where
  strict : Ranked.Strict (CountedSide.rank side) s.levels
  length : s.levels.length ≤ n
  levels : ∀ lvl ∈ s.levels, 0 < lvl.quantity ∧ ∃ i, lvl.price = price i ∧ ends (price i) = false

variable {price : ℕ → ℤ} {ends : ℤ → Bool} {n : ℕ}

theorem Filled.empty (side : Side) (price : ℕ → ℤ) (ends : ℤ → Bool) : Filled side price ends 0 .empty where
  strict := List.Pairwise.nil
  length := Nat.le_refl 0
  levels := List.forall_mem_nil _

theorem Filled.insert (h : Filled side price ends n s) {i : ℕ} (hends : ends (price i) = false) {level : CountedLevel}
    (hprice : level.price = price i) (hpos : 0 < level.quantity) :
    Filled side price ends (n + 1) (s.insertSorted level (side = .buy)) where
  strict := by
    rw [CountedSide.insertSorted_levels]
    exact Ranked.bounded_strict h.strict
  length := by
    rw [CountedSide.insertSorted_levels]
    exact (Ranked.bounded_length_le h.strict).trans (Nat.succ_le_succ h.length)
  levels := by
    rw [CountedSide.insertSorted_levels]
    intro lvl hlvl
    obtain rfl | hlvl := Ranked.mem_bounded hlvl
    · exact ⟨hpos, i, hprice, hends⟩
    · exact h.levels lvl hlvl

theorem Filled.mono (h : Filled side price ends n s) {m : ℕ} (hle : n ≤ m) : Filled side price ends m s where
  strict := h.strict
  length := h.length.trans hle
  levels := h.levels

theorem fillSide_filled (config : FeedConfig) (m i : ℕ) (rng : UInt64) (h : Filled side price ends n s) :
    Filled side price ends (n + m) (fillSide config (side = .buy) price ends m i s rng).1 := by
  induction m generalizing n i s rng with
  | zero => exact h
  | succ m ih =>
    unfold fillSide
    split_ifs with hends
    · exact h.mono (Nat.le_add_right n _)
    · obtain ⟨hprice, hpos⟩ := randomLevel_positive config (price i) rng
      have hnext := h.insert (Bool.eq_false_of_not_eq_true hends) hprice hpos
      rw [Nat.add_comm m 1, ← Nat.add_assoc]
      exact ih (i + 1) _ hnext

theorem fillBids_filled (config : FeedConfig) (best : ℤ) (rng : UInt64) :
    Filled .buy (fun i => best - i * config.tickSize) (fun price => price ≤ 0) (depth config).toNat
      (fillBids config best rng).1 := by
  have h := fillSide_filled config (depth config).toNat 0 rng
    (Filled.empty .buy (fun i => best - i * config.tickSize) fun price => price ≤ 0)
  rwa [Nat.zero_add] at h

theorem fillAsks_filled (config : FeedConfig) (best : ℤ) (rng : UInt64) :
    Filled .sell (fun i => best + i * config.tickSize) (fun _ => false) (depth config).toNat
      (fillAsks config best rng).1 := by
  have h := fillSide_filled config (depth config).toNat 0 rng
    (Filled.empty .sell (fun i => best + i * config.tickSize) fun _ => false)
  rwa [Nat.zero_add] at h

theorem bestPrice_mem {lvl : CountedLevel} (h : s.levels.head? = some lvl) : lvl ∈ s.levels := List.mem_of_mem_head? h

theorem not_isCrossed {book : CountedBook} {bid ask : ℤ} (hlt : bid < ask)
    (hbids : ∀ lvl ∈ book.bids.levels, lvl.price ≤ bid) (hasks : ∀ lvl ∈ book.asks.levels, ask ≤ lvl.price) :
    ¬book.isCrossed := by
  rintro ⟨hbid, hask, hcrossed⟩
  unfold CountedBook.bestBid at hbid hcrossed
  unfold CountedBook.bestAsk at hask hcrossed
  cases hb : book.bids.levels.head? with
  | none =>
    rw [hb] at hbid
    exact hbid rfl
  | some b =>
    cases ha : book.asks.levels.head? with
    | none =>
      rw [ha] at hask
      exact hask rfl
    | some a =>
      rw [hb, ha] at hcrossed
      have hcrossed : a.price ≤ b.price := hcrossed
      have hbelow := hbids b (bestPrice_mem hb)
      have habove := hasks a (bestPrice_mem ha)
      omega

variable (config) in
theorem rebuildBook_wellFormed (htick : 0 < config.tickSize) (book : CountedBook) {mid : ℤ}
    (hmid : config.tickSize ≤ mid) (rng : UInt64) : WellFormed config (rebuildBook config book mid rng).1 := by
  unfold rebuildBook
  simp only
  generalize hhalf : (if (((2 + nextRandom rng % 3) / 2).toNat * config.tickSize : ℤ) < config.tickSize
    then config.tickSize else ((2 + nextRandom rng % 3) / 2).toNat * config.tickSize) = half
  have hle : config.tickSize ≤ half := by
    rw [← hhalf]
    split_ifs with h
    · exact le_rfl
    · exact not_lt.mp h
  have hquotes : mid - half < mid + half := by omega
  rw [if_neg (Int.not_le.mpr hquotes)]
  have hbids := fillBids_filled config (mid - half) (nextRandom rng)
  have hasks := fillAsks_filled config (mid + half) (fillBids config (mid - half) (nextRandom rng)).2
  have hticks : ∀ i : ℕ, 0 ≤ i * config.tickSize := fun i => Int.mul_nonneg (Int.natCast_nonneg i) htick.le
  have hdepth : ((depth config).toNat : ℤ) = max 0 (min config.maxDepth maxDepth) := by
    unfold depth
    omega
  constructor
  · apply not_isCrossed hquotes
    · intro lvl hlvl
      obtain ⟨-, i, hprice, -⟩ := hbids.levels lvl hlvl
      have := hticks i
      omega
    · intro lvl hlvl
      obtain ⟨-, i, hprice, -⟩ := hasks.levels lvl hlvl
      have := hticks i
      omega
  · intro side
    cases side with
    | buy => exact hbids.strict
    | sell => exact hasks.strict
  · intro side
    rw [← hdepth]
    cases side with
    | buy => exact Int.ofNat_le.mpr hbids.length
    | sell => exact Int.ofNat_le.mpr hasks.length
  · intro side lvl hlvl
    cases side with
    | buy =>
      obtain ⟨hpos, i, hprice, hends⟩ := hbids.levels lvl hlvl
      rw [hprice]
      exact ⟨not_le.mp (of_decide_eq_false hends), hpos⟩
    | sell =>
      obtain ⟨hpos, i, hprice, -⟩ := hasks.levels lvl hlvl
      have := hticks i
      exact ⟨by omega, hpos⟩

end Books

section Runs

variable {P : Platform} {outside : ℤ} {config : FeedConfig} {f : SimulatedFeedHandler}

def NoOverflow (_ : Trace Action CountedBook) (f : SimulatedFeedHandler) (_ : Action) : Prop := f.sequence + 1 < 2 ^ 64

theorem act_cases (P : Platform) (outside : ℤ) (htick : 0 < config.tickSize) (hcount : f.sequence + 1 < 2 ^ 64) (a : Action) :
    ((act P outside config f a).2 = [] ∧ (act P outside config f a).1.sequence = f.sequence) ∨
      ∃ book, (act P outside config f a).2 = [book] ∧ WellFormed config book ∧ book.sequence = f.sequence + 1 ∧
        (act P outside config f a).1.sequence = f.sequence + 1 := by
  cases a with
  | start => exact .inl ⟨rfl, rfl⟩
  | stop => exact .inl ⟨rfl, rfl⟩
  | generateTick =>
    unfold act generateTick
    split_ifs
    · exact .inl ⟨rfl, rfl⟩
    · right
      simp only [Nat.mod_eq_of_lt hcount]
      refine ⟨_, rfl, ?_, rfl, trivial⟩
      obtain ⟨mid, rng⟩ := randomWalk P outside config f.currentMid f.rngState
      have hmid : config.tickSize ≤ if mid < config.tickSize then config.tickSize else mid := by
        split_ifs with hlow
        · exact le_rfl
        · exact not_lt.mp hlow
      have hbook := rebuildBook_wellFormed config htick f.book hmid rng
      exact ⟨hbook.uncrossed, hbook.strict, hbook.depth, hbook.positive⟩

def Numbered (books : List CountedBook) (last : ℕ) : Prop :=
  (books.map CountedBook.sequence).Pairwise (· < ·) ∧ ∀ book ∈ books, 0 < book.sequence ∧ book.sequence ≤ last

theorem Numbered.append {books : List CountedBook} {last : ℕ} (h : Numbered books last) {book : CountedBook}
    (hnext : book.sequence = last + 1) : Numbered (books ++ [book]) (last + 1) := by
  constructor
  · rw [List.map_append, List.pairwise_append]
    refine ⟨h.1, List.pairwise_singleton _ _, ?_⟩
    intro n hn m hm
    obtain ⟨earlier, hearlier, rfl⟩ := List.mem_map.mp hn
    obtain rfl := List.mem_singleton.mp hm
    have hle := (h.2 earlier hearlier).2
    omega
  · intro x hx
    obtain hx | hx := List.mem_append.mp hx
    · obtain ⟨hpos, hle⟩ := h.2 x hx
      omega
    · obtain rfl := List.mem_singleton.mp hx
      omega

/-- A negative depth in the configuration leaves both sides empty. -/
theorem books_wellFormed {h : Trace Action CountedBook} (htick : 0 < config.tickSize)
    (hr : (machine P outside config).Reach NoOverflow (init config) h f) :
    (∀ book ∈ h.events, WellFormed config book) ∧ (0 :: h.events.map CountedBook.sequence).Pairwise (· < ·) := by
  have hinv : (∀ book ∈ h.events, WellFormed config book) ∧ Numbered h.events f.sequence := by
    apply hr.invariant (I := fun k g => (∀ book ∈ k.events, WellFormed config book) ∧ Numbered k.events g.sequence)
    · exact ⟨List.forall_mem_nil _, List.Pairwise.nil, List.forall_mem_nil _⟩
    · rintro k g a u es ⟨hwell, hnumbered⟩ hcount hstep
      have hact : act P outside config g a = (u, es) := Option.some.inj hstep
      have hcases := act_cases P outside htick hcount a
      rw [hact] at hcases
      rw [Trace.events_append, Trace.events_single]
      obtain ⟨rfl, hsame⟩ | ⟨book, rfl, hnew, hseq, hnext⟩ := hcases
      · rw [List.append_nil, hsame]
        exact ⟨hwell, hnumbered⟩
      · rw [hnext]
        refine ⟨?_, hnumbered.append hseq⟩
        rw [List.forall_mem_append, List.forall_mem_singleton]
        exact ⟨hwell, hnew⟩
  obtain ⟨hwell, hpairwise, hbounds⟩ := hinv
  refine ⟨hwell, List.pairwise_cons.mpr ⟨?_, hpairwise⟩⟩
  intro n hn
  obtain ⟨book, hbook, rfl⟩ := List.mem_map.mp hn
  exact (hbounds book hbook).1

def ticked (P : Platform) (outside : ℤ) (config : FeedConfig) : SimulatedFeedHandler × List CountedBook :=
  generateTick P outside config { init config with running := true }

def tickedTrace (P : Platform) (outside : ℤ) (config : FeedConfig) : Trace Action CountedBook :=
  [(.start, []), (.generateTick, (ticked P outside config).2)]

theorem reach_ticked (P : Platform) (outside : ℤ) (config : FeedConfig) :
    (machine P outside config).Reach NoOverflow (init config) (tickedTrace P outside config)
      (ticked P outside config).1 := by
  have hcount : (init config).sequence + 1 < 2 ^ 64 := by
    change 0 + 1 < 2 ^ 64
    decide
  have hstart : (machine P outside config).Reach NoOverflow (init config) [(.start, [])]
      { init config with running := true } := .step .refl hcount rfl
  exact hstart.step hcount rfl

theorem tickedTrace_events (P : Platform) (outside : ℤ) (config : FeedConfig) :
    ∃ book, (tickedTrace P outside config).events = [book] := ⟨_, rfl⟩

theorem books_wellFormed_default : (∃ book, (tickedTrace .exact 0 {}).events = [book]) ∧
    (∀ book ∈ (tickedTrace .exact 0 {}).events, WellFormed {} book) ∧
      (0 :: (tickedTrace .exact 0 {}).events.map CountedBook.sequence).Pairwise (· < ·) :=
  ⟨tickedTrace_events .exact 0 {}, books_wellFormed (by decide) (reach_ticked .exact 0 {})⟩

/-- No side is as short as a negative depth asks for. -/
theorem negative_depth :
    let config : FeedConfig := { maxDepth := -1 }
    0 < config.tickSize ∧ 0 ≤ config.baseQuantity ∧ ∃ h f,
      (machine .exact 0 config).Reach NoOverflow (init config) h f ∧
        ∃ book ∈ h.events, ¬(book.bids.levels.length : ℤ) ≤ min config.maxDepth maxDepth := by
  intro config
  have hdepth (book : CountedBook) : ¬(book.bids.levels.length : ℤ) ≤ min config.maxDepth maxDepth := by
    intro hle
    exact absurd ((Int.natCast_nonneg _).trans (hle.trans (min_le_left _ _))) (by decide)
  refine ⟨by decide, by decide, _, _, reach_ticked .exact 0 config, ?_⟩
  obtain ⟨book, hbook⟩ := tickedTrace_events .exact 0 config
  exact ⟨book, hbook ▸ List.mem_cons_self, hdepth book⟩

end Runs

end SimulatedFeedHandler

end Klett.Sor
