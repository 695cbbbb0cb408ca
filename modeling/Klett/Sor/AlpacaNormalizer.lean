import Klett.Lib.Json
import Klett.Sor.FeedHandler

namespace Klett.Sor

open Klett.Lib FixedString Json

structure AlpacaNormalizer where
  venueId : ℕ
  books : Symbol → Option CountedBook := fun _ => none
  sequence : ℕ := 0

namespace AlpacaNormalizer

section Model

structure Quote where
  symbol : Symbol
  bidPrice : ℚ
  bidSize : ℤ
  askPrice : ℚ
  askSize : ℤ

/-- What a call leaves: the normalizer, the books it handed to the callback, and the exception that ended it. -/
structure Outcome where
  normalizer : AlpacaNormalizer
  delivered : List CountedBook := []
  thrown : Option Error := none

variable {P : Platform} (lib : Library P) (x : AlpacaNormalizer)

def single (price quantity : ℤ) : CountedSide :=
  ⟨[{ price := price, quantity := quantity, orderCount := 1 }], Nat.le_of_ble_eq_true rfl⟩

variable (P)

variable {P}

end Model

section Specification

variable {P : Platform} (lib : Library P)

def quoteFields (symStr : List UInt8) (bp bs ap as : Json) : Option Quote := do
  let bidPrice ← (lib.double bp).toOption
  let bidSize ← (lib.int64 bs).toOption
  let askPrice ← (lib.double ap).toOption
  let askSize ← (lib.int64 as).toOption
  if 1 ≤ symStr.length ∧ symStr.length ≤ 15 ∧ 0 < bidPrice ∧ 0 < askPrice ∧ 0 < bidSize ∧ 0 < askSize then
    some { symbol := .assign symStr, bidPrice, bidSize, askPrice, askSize }
  else none

def quote (msg : Json) : Option Quote :=
  match msg.get? (ascii "T"), msg.get? (ascii "S"), msg.get? (ascii "bp"), msg.get? (ascii "bs"), msg.get? (ascii "ap"),
      msg.get? (ascii "as") with
  | some (.string type), some (.string symStr), some bp, some bs, some ap, some as =>
    if type = ascii "q" then quoteFields lib symStr bp bs ap as else none
  | _, _, _, _, _, _ => none

end Specification

section Tolerance

variable {P : Platform} {lib : Library P} {msg s bp bs ap as : Json} {symStr : List UInt8}

end Tolerance

section Runs

variable {P : Platform} {lib : Library P} {x : AlpacaNormalizer} {msgs : List Json}

end Runs

end AlpacaNormalizer

end Klett.Sor
