import Klett.Lib.XorShift
import Klett.Sor.FeedHandler

namespace Klett.Sor

open Klett.Lib

namespace SimulatedFeedHandler

section Step

theorem nextRandom_injective : Function.Injective nextRandom := by
  have hfirst : Function.Injective fun x : UInt64 => x ^^^ (x <<< 13) := by
    intro x y h
    exact UInt64.toBitVec_inj.mp (xor_shiftLeft_injective (k := 13) (by decide) (congrArg UInt64.toBitVec h))
  have hsecond : Function.Injective fun x : UInt64 => x ^^^ (x >>> 7) := by
    intro x y h
    exact UInt64.toBitVec_inj.mp (xor_ushiftRight_injective (k := 7) (by decide) (congrArg UInt64.toBitVec h))
  have hthird : Function.Injective fun x : UInt64 => x ^^^ (x <<< 17) := by
    intro x y h
    exact UInt64.toBitVec_inj.mp (xor_shiftLeft_injective (k := 17) (by decide) (congrArg UInt64.toBitVec h))
  exact hthird.comp (hsecond.comp hfirst)

theorem nextRandom_zero : nextRandom 0 = 0 := by decide

theorem nextRandom_iterate_ne_zero {seed : UInt64} (hseed : seed ≠ 0) (n : ℕ) : nextRandom^[n] seed ≠ 0 :=
  iterate_ne nextRandom_injective nextRandom_zero hseed n

end Step

section Draws

/-- `rng` is the state of the generator after some number of draws from `seed`. -/
def Drawn (seed rng : UInt64) : Prop := ∃ n, nextRandom^[n] seed = rng

variable {seed rng : UInt64} {config : FeedConfig}

theorem Drawn.refl (seed : UInt64) : Drawn seed seed := ⟨0, rfl⟩

theorem Drawn.next (h : Drawn seed rng) : Drawn seed (nextRandom rng) := by
  obtain ⟨n, rfl⟩ := h
  exact ⟨n + 1, Function.iterate_succ_apply' nextRandom n seed⟩

theorem Drawn.ne_zero (h : Drawn seed rng) (hseed : seed ≠ 0) : rng ≠ 0 := by
  obtain ⟨n, rfl⟩ := h
  exact nextRandom_iterate_ne_zero hseed n

theorem fillSide_drawn (isBid : Bool) (price : ℕ → ℤ) (ends : ℤ → Bool) (n i : ℕ) (side : CountedSide)
    (h : Drawn seed rng) : Drawn seed (fillSide config isBid price ends n i side rng).2 := by
  induction n generalizing i side rng with
  | zero => exact h
  | succ n ih =>
    unfold fillSide
    split_ifs
    · exact h
    · apply ih
      exact h.next.next

theorem rebuildBook_drawn (book : CountedBook) (mid : ℤ) (h : Drawn seed rng) :
    Drawn seed (rebuildBook config book mid rng).2 := by
  unfold rebuildBook
  apply fillSide_drawn
  apply fillSide_drawn
  exact h.next

theorem generateTick_drawn (P : Platform) (outside : ℤ) (f : SimulatedFeedHandler) (h : Drawn seed f.rngState) :
    Drawn seed (generateTick P outside config f).1.rngState := by
  unfold generateTick
  split_ifs
  · exact h
  · exact rebuildBook_drawn f.book _ h.next

theorem run_drawn {P : Platform} {outside : ℤ} {h : Trace Action CountedBook} {f : SimulatedFeedHandler}
    (hr : (machine P outside config).Run (init config) h f) : Drawn config.rngSeed f.rngState := by
  apply hr.invariant (I := fun _ g => Drawn config.rngSeed g.rngState)
  · exact .refl _
  · intro k g a u es hdrawn _ hstep
    obtain rfl : (act P outside config g a).1 = u := congrArg Prod.fst (Option.some.inj hstep)
    cases a with
    | start => exact hdrawn
    | stop => exact hdrawn
    | generateTick => exact generateTick_drawn P outside g hdrawn

end Draws

end SimulatedFeedHandler

namespace ReplayEngine

open SimulatedFeedHandler

section Synthetic

structure MarketDataTick where
  symbol : Symbol
  venueId : ℕ
  timestamp : ℤ
  bidPrice : ℤ
  bidQty : ℤ
  askPrice : ℤ
  askQty : ℤ

structure Synthetic where
  rng : UInt64
  mid : ℤ
  ts : ℤ
  ticks : List MarketDataTick

def tickSize : ℤ := 1000000

def syntheticSeed (startMid : ℤ) : UInt64 := UInt64.ofNat (toUInt64 startMid) ^^^ 0xBEEFCAFE12345678

variable (symbol : Symbol) (venueId : ℕ) (interval : ℤ)

def syntheticTick (s : Synthetic) : Synthetic :=
  let walk := nextRandom s.rng
  let mid := s.mid + (SimulatedFeedHandler.toInt64 (walk % 3).toNat - 1) * tickSize
  let mid := if mid < tickSize then tickSize else mid
  let spread := nextRandom walk
  let halfSpread := SimulatedFeedHandler.toInt64 (1 + spread % 2).toNat * tickSize
  let bidDraw := nextRandom spread
  let askDraw := nextRandom bidDraw
  let bidPrice := mid - halfSpread
  { rng := askDraw
    mid := mid
    ts := s.ts + interval
    ticks := s.ticks ++
      [{ symbol := symbol
         venueId := venueId
         timestamp := s.ts
         bidPrice := if bidPrice ≤ 0 then tickSize else bidPrice
         bidQty := SimulatedFeedHandler.toInt64 (50 + bidDraw % 200).toNat
         askPrice := mid + halfSpread
         askQty := SimulatedFeedHandler.toInt64 (50 + askDraw % 200).toNat }] }

def generateSynthetic (startMid : ℤ) (numTicks : ℕ) : Synthetic :=
  (List.range numTicks).foldl (fun s _ => syntheticTick symbol venueId interval s)
    { rng := syntheticSeed startMid
      mid := startMid
      ts := 1000000
      ticks := [] }

variable {symbol venueId interval}

theorem syntheticTick_drawn {seed : UInt64} {s : Synthetic} (h : Drawn seed s.rng) :
    Drawn seed (syntheticTick symbol venueId interval s).rng := h.next.next.next.next

theorem generateSynthetic_drawn (startMid : ℤ) (numTicks : ℕ) :
    Drawn (syntheticSeed startMid) (generateSynthetic symbol venueId interval startMid numTicks).rng := by
  unfold generateSynthetic
  apply List.foldlRecOn (motive := fun s : Synthetic => Drawn (syntheticSeed startMid) s.rng)
  · exact .refl _
  · intro s h _ _
    exact syntheticTick_drawn h

end Synthetic

end ReplayEngine

namespace SimulatedFeedHandler

open ReplayEngine

/-- The second half is about the two users of the step: the feed, and the replay engine that makes up ticks. -/
theorem xorshift_never_zero {seed : UInt64} (hseed : seed ≠ 0) :
    Function.Injective nextRandom ∧ (∀ n, nextRandom^[n] seed ≠ 0) ∧
      (∀ P outside config h f, config.rngSeed = seed → (machine P outside config).Run (init config) h f →
        Drawn seed f.rngState ∧ f.rngState ≠ 0) ∧
      ∀ symbol venueId interval startMid numTicks, syntheticSeed startMid = seed →
        Drawn seed (generateSynthetic symbol venueId interval startMid numTicks).rng ∧
          (generateSynthetic symbol venueId interval startMid numTicks).rng ≠ 0 := by
  refine ⟨nextRandom_injective, nextRandom_iterate_ne_zero hseed, ?_, ?_⟩
  · rintro P outside config h f rfl hr
    exact ⟨run_drawn hr, (run_drawn hr).ne_zero hseed⟩
  · rintro symbol venueId interval startMid numTicks rfl
    have hdrawn : Drawn (syntheticSeed startMid) (generateSynthetic symbol venueId interval startMid numTicks).rng :=
      generateSynthetic_drawn startMid numTicks
    exact ⟨hdrawn, hdrawn.ne_zero hseed⟩

theorem xorshift_never_zero_default : (0x12345678DEADBEEF : UInt64) ≠ 0 ∧ Function.Injective nextRandom ∧
    (∀ n, nextRandom^[n] 0x12345678DEADBEEF ≠ 0) ∧
    ∀ P outside h f, (machine P outside {}).Run (init {}) h f → f.rngState ≠ 0 := by
  have hseed : (0x12345678DEADBEEF : UInt64) ≠ 0 := by decide
  obtain ⟨hinj, hiter, hrun, -⟩ := xorshift_never_zero hseed
  exact ⟨hseed, hinj, hiter, fun P outside h f hr => (hrun P outside {} h f rfl hr).2⟩

end SimulatedFeedHandler

end Klett.Sor
