import Klett.Nash.Game
import Klett.Nash.Subsets

namespace Klett.Nash

open Matrix Klett.Lib

section Model

variable {k k1 k2 m n : ℕ}

/-- The unknowns are the weights on the support and, last, the value; the last equation makes the weights sum to one. -/
def indifferenceSystem (P : Matrix (Fin k) (Fin k) ℚ) : Matrix (Fin (k + 1)) (Fin (k + 1)) ℚ :=
  Matrix.of fun i j => Fin.lastCases (Fin.lastCases 0 (fun _ => 1) j) (fun i => Fin.lastCases (-1) (P i) j) i

def indifferenceRhs (k : ℕ) : Fin (k + 1) → ℚ := Pi.single (Fin.last k) 1

def fillStrategy (supp : Support k n) (sol : Fin (k + 1) → ℚ) : Fin n → ℚ :=
  (List.finRange k).foldl (fun strategy i => Function.update strategy (supp i) (max 0 (sol i.castSucc))) 0

/-- The sentinel the greatest payoff on a support is searched from. -/
def lowestPayoff : ℚ := -10 ^ 300

namespace SupportEnumeration

variable (tol : Tolerances) (game : BimatrixGame m n)

def trySquare (supp1 : Support k m) (supp2 : Support k n) : Option (StrategyProfile m n) :=
  match solve (indifferenceSystem (game.payoff1.submatrix supp1 supp2)) (indifferenceRhs k) tol.pivotTol with
  | none => none
  | some solY =>
    if ∃ j : Fin k, solY j.castSucc < -tol.eps then none
    else
      match solve (indifferenceSystem (game.payoff2.submatrix supp1 supp2)ᵀ) (indifferenceRhs k) tol.pivotTol with
      | none => none
      | some solX =>
        if ∃ i : Fin k, solX i.castSucc < -tol.eps then none
        else some { strategy1 := fillStrategy supp1 solX, strategy2 := fillStrategy supp2 solY }

/-- Supports of different sizes give no square system and are refused. -/
def trySupport (supp1 : Support k1 m) (supp2 : Support k2 n) : Option (StrategyProfile m n) :=
  if h : k1 = k2 then trySquare tol game supp1 ((Fin.castOrderIso h).toOrderEmbedding.trans supp2) else none

def checkBestResponse (profile : StrategyProfile m n) (supp1 : Support k1 m) (supp2 : Support k2 n) : Bool :=
  let payoffs1 := game.payoff1 *ᵥ profile.strategy2
  let v1 := (List.finRange k1).foldl (fun v i => max v (payoffs1 (supp1 i))) lowestPayoff
  let payoffs2 := game.payoff2ᵀ *ᵥ profile.strategy1
  let v2 := (List.finRange k2).foldl (fun v j => max v (payoffs2 (supp2 j))) lowestPayoff
  (∀ i, ¬payoffs1 i > v1 + tol.eps) ∧ ∀ j, ¬payoffs2 j > v2 + tol.eps

def name : String := "SupportEnumeration"

def samePlay (known profile : StrategyProfile m n) : Bool :=
  (∀ i, approxEq (known.strategy1 i) (profile.strategy1 i) tol.eps) ∧
    ∀ j, approxEq (known.strategy2 j) (profile.strategy2 j) tol.eps

def resultOf (profile : StrategyProfile m n) : EquilibriumResult m n :=
  { profile := some profile
    solverName := name
    status := .converged
    payoff1 := game.expectedPayoff1 profile.strategy1 profile.strategy2
    payoff2 := game.expectedPayoff2 profile.strategy1 profile.strategy2
    residual := nashResidual game profile.strategy1 profile.strategy2 }

def visit (result : MultiEquilibriumResult m n) (s1 : Support k1 m) (s2 : Support k2 n) : MultiEquilibriumResult m n :=
  let result := { result with totalIterations := result.totalIterations + 1 }
  match trySupport tol game s1 s2 with
  | none => result
  | some profile =>
    if checkBestResponse tol game profile s1 s2 then
      if result.equilibria.any fun eq => eq.profile.any fun known => samePlay tol known profile then result
      else { result with equilibria := result.equilibria ++ [resultOf game profile] }
    else result

/-- The support sizes `1, …, min m n` in turn, and for each every pair of supports of that size. -/
def visitAll : MultiEquilibriumResult m n :=
  (List.range' 1 (min m n)).foldl
    (fun result k => (subsets k m).foldl
      (fun result s1 => (subsets k n).foldl (fun result s2 => visit tol game result s1 s2) result) result)
    { solverName := name }

def solveAll : MultiEquilibriumResult m n :=
  let result := visitAll tol game
  { result with status := if result.equilibria.isEmpty then .infeasible else .converged }

def solveOne : EquilibriumResult m n :=
  match (solveAll tol game).equilibria with
  | [] => { solverName := name, status := .infeasible }
  | eq :: _ => eq

end SupportEnumeration

end Model

end Klett.Nash
