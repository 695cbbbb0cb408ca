import Klett.Nash.PositiveGame
import Mathlib.Data.Matrix.ColumnRowPartitioned
import Mathlib.Logic.Equiv.Fin.Basic

namespace Klett.Nash

open Matrix Klett.Lib

section Model

/-- The largest finite double, with which the minimum ratio test starts. -/
def maxDouble : ℚ := 2 ^ 1024 - 2 ^ 971

namespace LemkeHowson

section Pivot

variable {rows : ℕ} {ν : Type*} (t : Tableau (Fin rows) ν ℚ ℚ) (tol : ℚ)

def minimumRatio (enter : ν) : ℚ × Option (Fin rows) :=
  (List.finRange rows).foldl (fun best i =>
    if t.coeff i enter > tol then
      if t.rhs i / t.coeff i enter < best.1 - tol then (t.rhs i / t.coeff i enter, some i) else best
    else best) (maxDouble, none)

def eliminate (row i : Fin rows) (enter : ν) (entry pivotEntry : ℚ) : ℚ :=
  if i = row then pivotEntry / t.coeff row enter
  else if |t.coeff i enter| > tol then entry - t.coeff i enter * (pivotEntry / t.coeff row enter) else entry

def pivot (enter : ν) : Option (ν × Tableau (Fin rows) ν ℚ ℚ) :=
  match (minimumRatio t tol enter).2 with
  | none => none
  | some row =>
    some (t.basis row,
      { coeff := Matrix.of fun i j => eliminate t tol row i enter (t.coeff i j) (t.coeff row j)
        rhs := fun i => eliminate t tol row i enter (t.rhs i) (t.rhs row)
        basis := Function.update t.basis row enter })

def getValue [DecidableEq ν] (var : ν) : ℚ :=
  match (List.finRange rows).find? fun i => t.basis i = var with
  | none => 0
  | some i => t.rhs i

end Pivot

variable {m n : ℕ}

/-- The variables of the first tableau are the `x i` and the slacks `s j`, those of the second the `y j` and the slacks
`r i`; `enter` tells in which of the two the next pivot is made. -/
structure State (m n : ℕ) where
  tab1 : Tableau (Fin n) (Fin m ⊕ Fin n) ℚ ℚ
  tab2 : Tableau (Fin m) (Fin n ⊕ Fin m) ℚ ℚ
  enter : (Fin m ⊕ Fin n) ⊕ (Fin n ⊕ Fin m)

def start (game : BimatrixGame m n) (dropped : Fin m ⊕ Fin n) : State m n where
  tab1 := ⟨Matrix.fromCols game.makePositive.payoff2ᵀ 1, fun _ => 1, .inr⟩
  tab2 := ⟨Matrix.fromCols game.makePositive.payoff1 1, fun _ => 1, .inr⟩
  enter :=
    match dropped with
    | .inl i => .inl (.inl i)
    | .inr j => .inr (.inl j)

def State.pivot (s : State m n) (tol : ℚ) : Option ((Fin m ⊕ Fin n) × State m n) :=
  match s.enter with
  | .inl enter =>
    match LemkeHowson.pivot s.tab1 tol enter with
    | none => none
    | some (leave, tab1) => some (leave, { s with tab1 := tab1 })
  | .inr enter =>
    match LemkeHowson.pivot s.tab2 tol enter with
    | none => none
    | some (leave, tab2) => some (leave.swap, { s with tab2 := tab2 })

def State.follow (s : State m n) (newLabel : Fin m ⊕ Fin n) : State m n :=
  { s with
    enter :=
      match s.enter with
      | .inl _ => .inr newLabel.swap
      | .inr _ => .inl newLabel }

def normalise {k : ℕ} (tol : ℚ) (raw : Fin k → ℚ) (i : Fin k) : ℚ :=
  if ∑ i, raw i > tol then raw i / ∑ i, raw i else 1 / k

def State.profile (s : State m n) (tol : ℚ) : StrategyProfile m n where
  strategy1 := normalise tol fun i => max 0 (getValue s.tab1 (.inl i))
  strategy2 := normalise tol fun j => max 0 (getValue s.tab2 (.inl j))

variable (tol : Tolerances) (game : BimatrixGame m n)

def resultOf (result : EquilibriumResult m n) (profile : StrategyProfile m n) : EquilibriumResult m n :=
  { result with
    profile := some profile
    status := .converged
    payoff1 := game.expectedPayoff1 profile.strategy1 profile.strategy2
    payoff2 := game.expectedPayoff2 profile.strategy1 profile.strategy2
    residual := nashResidual game profile.strategy1 profile.strategy2 }

def pivoting (dropped : Fin m ⊕ Fin n) : ℕ → State m n → EquilibriumResult m n → EquilibriumResult m n
  | 0, _, result => { result with status := .maxIterations }
  | limit + 1, s, result =>
    let result := { result with iterations := result.iterations + 1 }
    match s.pivot tol.eps with
    | none => { result with status := .numericalFailure }
    | some (newLabel, s') =>
      if newLabel = dropped then resultOf game result (s'.profile tol.eps)
      else pivoting dropped limit (s'.follow newLabel) result

def name : String := "LemkeHowson"

def runPivoting (label : Fin (m + n)) : EquilibriumResult m n :=
  pivoting tol game (finSumFinEquiv.symm label) tol.maxIter.toNat (start game (finSumFinEquiv.symm label))
    { solverName := name }

/-- A label out of range counts as the first. -/
def solve (dropLabel : ℤ) : EquilibriumResult m n :=
  if h : 0 ≤ dropLabel ∧ dropLabel < m + n then runPivoting tol game ⟨dropLabel.toNat, by omega⟩
  else runPivoting tol game ⟨0, Nat.add_pos_left game.rows_pos n⟩

end LemkeHowson

end Model

end Klett.Nash
