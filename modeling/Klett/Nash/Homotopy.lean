import Klett.Nash.Game
import Mathlib.Data.Finset.Lattice.Fold
import Mathlib.Logic.Equiv.Fin.Basic

namespace Klett.Nash.HomotopySolver

open Matrix Klett.Lib

section Systems

variable {k1 k2 : ℕ}

/-- The weights of both supports and the two values; the equations stand in the same order. -/
abbrev Unknown (k1 k2 : ℕ) := Fin k1 ⊕ Fin k2 ⊕ Fin 2

abbrev Point (k1 k2 : ℕ) := Fin k1 ⊕ Fin k2 ⊕ Fin 3 → ℚ

structure HomotopySystem (k1 k2 : ℕ) where
  H : Point k1 k2 → Unknown k1 k2 → ℚ
  DH : Point k1 k2 → Matrix (Unknown k1 k2) (Fin k1 ⊕ Fin k2 ⊕ Fin 3) ℚ

structure PathResult (k1 k2 : ℕ) where
  wFinal : Point k1 k2
  tFinal : ℚ
  reachedTarget : Bool
  totalSteps : ℕ

structure NewtonResult (ι : Type) where
  x : ι → ℚ
  converged : Bool

def value1 (w : Point k1 k2) : ℚ := w (.inr (.inr 0))

def value2 (w : Point k1 k2) : ℚ := w (.inr (.inr 1))

def back (w : Point k1 k2) : ℚ := w (.inr (.inr 2))

def embed : Unknown k1 k2 → Fin k1 ⊕ Fin k2 ⊕ Fin 3 := Sum.map id (Sum.map id Fin.castSucc)

def pinned (z : Unknown k1 k2 → ℚ) (t : ℚ) : Point k1 k2
  | .inl i => z (.inl i)
  | .inr (.inl j) => z (.inr (.inl j))
  | .inr (.inr 0) => z (.inr (.inr 0))
  | .inr (.inr 1) => z (.inr (.inr 1))
  | .inr (.inr 2) => t

def normInf {ι : Type} [Fintype ι] (v : ι → ℚ) : ℚ := Finset.univ.fold max 0 fun i => |v i|

/-- The path follower and Newton's method, of which the solver uses nothing but what they return. -/
structure Numerics where
  followPath {k1 k2 : ℕ} : HomotopySystem k1 k2 → Point k1 k2 → PathResult k1 k2
  newtonSolve {ι : Type} [Fintype ι] : ((ι → ℚ) → ι → ℚ) → (ι → ℚ) → ℚ → ℕ → NewtonResult ι

structure Numerics.Consistent (numerics : Numerics) : Prop where
  reached : ∀ {k1 k2 : ℕ} (sys : HomotopySystem k1 k2) (w0 : Point k1 k2),
    (numerics.followPath sys w0).reachedTarget = true →
      (numerics.followPath sys w0).tFinal = 1 ∧ back (numerics.followPath sys w0).wFinal = 1 ∧
        ∀ e, sys.H (numerics.followPath sys w0).wFinal e = 0
  converged : ∀ {ι : Type} [Fintype ι] (F : (ι → ℚ) → ι → ℚ) (x0 : ι → ℚ) (tol : ℚ) (maxIter : ℕ),
    (numerics.newtonSolve F x0 tol maxIter).converged = true →
      normInf (F (numerics.newtonSolve F x0 tol maxIter).x) < tol

end Systems

section Model

variable {k m n k1 k2 : ℕ} (tol : Tolerances) (game : BimatrixGame m n) (prior1 : Fin m → ℚ) (prior2 : Fin n → ℚ)

def maxElement (hk : 0 < k) (v : Fin k → ℚ) : ℚ := Finset.univ.sup' ⟨⟨0, hk⟩, Finset.mem_univ _⟩ v

structure Start (m n : ℕ) where
  support1 : List (Fin m)
  support2 : List (Fin n)
  w0 : Point support1.length support2.length

def computeStart : Start m n :=
  let payoffs1 := game.payoff1 *ᵥ prior2
  let maxV1 := maxElement game.rows_pos payoffs1
  let payoffs2 := game.payoff2ᵀ *ᵥ prior1
  let maxV2 := maxElement game.cols_pos payoffs2
  let support1 := (List.finRange m).filter fun i => payoffs1 i > maxV1 - tol.eps
  let support2 := (List.finRange n).filter fun j => payoffs2 j > maxV2 - tol.eps
  { support1 := support1
    support2 := support2
    w0 := fun
      | .inl _ => 1 / support1.length
      | .inr (.inl _) => 1 / support2.length
      | .inr (.inr 0) => maxV1
      | .inr (.inr 1) => maxV2
      | .inr (.inr 2) => 0 }

def homotopyMap (s1 : Fin k1 → Fin m) (s2 : Fin k2 → Fin n) (w : Point k1 k2) : Unknown k1 k2 → ℚ
  | .inl i =>
    back w * ∑ j, game.payoff1 (s1 i) (s2 j) * w (.inr (.inl j)) + (1 - back w) * (game.payoff1 *ᵥ prior2) (s1 i)
      - value1 w
  | .inr (.inl j) =>
    back w * ∑ i, game.payoff2 (s1 i) (s2 j) * w (.inl i) + (1 - back w) * (game.payoff2ᵀ *ᵥ prior1) (s2 j)
      - value2 w
  | .inr (.inr 0) => ∑ i, w (.inl i) - 1
  | .inr (.inr 1) => ∑ j, w (.inr (.inl j)) - 1

def homotopyJacobian (s1 : Fin k1 → Fin m) (s2 : Fin k2 → Fin n) (w : Point k1 k2) :
    Matrix (Unknown k1 k2) (Fin k1 ⊕ Fin k2 ⊕ Fin 3) ℚ :=
  Matrix.of fun
    | .inl i, .inr (.inl j) => back w * game.payoff1 (s1 i) (s2 j)
    | .inl _, .inr (.inr 0) => -1
    | .inl i, .inr (.inr 2) =>
      ∑ j, game.payoff1 (s1 i) (s2 j) * w (.inr (.inl j)) - (game.payoff1 *ᵥ prior2) (s1 i)
    | .inr (.inl j), .inl i => back w * game.payoff2 (s1 i) (s2 j)
    | .inr (.inl _), .inr (.inr 1) => -1
    | .inr (.inl j), .inr (.inr 2) =>
      ∑ i, game.payoff2 (s1 i) (s2 j) * w (.inl i) - (game.payoff2ᵀ *ᵥ prior1) (s2 j)
    | .inr (.inr 0), .inl _ => 1
    | .inr (.inr 1), .inr (.inl _) => 1
    | _, _ => 0

def buildHomotopy (s1 : Fin k1 → Fin m) (s2 : Fin k2 → Fin n) : HomotopySystem k1 k2 where
  H := homotopyMap game prior1 prior2 s1 s2
  DH := homotopyJacobian game prior1 prior2 s1 s2

def fill (support : Fin k → Fin n) (weight : Fin k → ℚ) : Fin n → ℚ :=
  (List.finRange k).foldl (fun strategy i => Function.update strategy (support i) (max 0 (weight i))) 0

def renormalise (v : Fin k → ℚ) : Fin k → ℚ := if ∑ i, v i > 1 / 10 ^ 15 then fun i => v i / ∑ i, v i else v

def normalised (weights : StrategyProfile m n) : StrategyProfile m n where
  strategy1 := renormalise weights.strategy1
  strategy2 := renormalise weights.strategy2

def weightsAt (w : Point k1 k2) (s1 : Fin k1 → Fin m) (s2 : Fin k2 → Fin n) : StrategyProfile m n where
  strategy1 := fill s1 fun i => w (.inl i)
  strategy2 := fill s2 fun j => w (.inr (.inl j))

def extractProfile (w : Point k1 k2) (s1 : Fin k1 → Fin m) (s2 : Fin k2 → Fin n) : StrategyProfile m n :=
  normalised (weightsAt w s1 s2)

def defaultPrior (k : ℕ) : Fin k → ℚ :=
  let raw (i : Fin k) : ℚ := 1 / k + 1 / 100 * (i + 1) / k
  fun i => raw i / ∑ i, raw i

def retryPrior (perturbation : ℚ × ℚ) (k : ℕ) : Fin k → ℚ :=
  let raw (i : Fin k) : ℚ := perturbation.1 + perturbation.2 * i / max 1 (k - 1)
  fun i => raw i / ∑ i, raw i

def perturbations : List (ℚ × ℚ) := [(4 / 5, 1 / 5), (1 / 5, 4 / 5), (3 / 5, 2 / 5)]

def uniformPrior (k : ℕ) : Fin k → ℚ := fun _ => 1 / k

def accepted (path : PathResult k1 k2) : Bool := path.reachedTarget || path.tFinal > 1 - 1 / 10 ^ 4

variable (numerics : Numerics)

/-- Where the path stopped short of `t = 1` the point is moved there, and corrected if Newton's method succeeds. -/
def pinToTarget (sys : HomotopySystem k1 k2) (w : Point k1 k2) : Point k1 k2 :=
  if |back w - 1| > 1 / 10 ^ 8 then
    let z0 : Unknown k1 k2 → ℚ := w ∘ embed
    let newton := numerics.newtonSolve (fun z => sys.H (pinned z 1)) z0 tol.convTol 50
    if newton.converged then pinned newton.x 1 else pinned z0 1
  else w

/-- Each weight times what its action falls short of the best. -/
def complementarity (z : Fin m ⊕ Fin n → ℚ) : Fin m ⊕ Fin n → ℚ :=
  let payoffs1 := game.payoff1 *ᵥ fun j => z (.inr j)
  let payoffs2 := game.payoff2ᵀ *ᵥ fun i => z (.inl i)
  Sum.elim (fun i => z (.inl i) * (maxElement game.rows_pos payoffs1 - payoffs1 i))
    fun j => z (.inr j) * (maxElement game.cols_pos payoffs2 - payoffs2 j)

def withProfile (result : EquilibriumResult m n) (profile : StrategyProfile m n) : EquilibriumResult m n :=
  { result with
    profile := some profile
    payoff1 := game.expectedPayoff1 profile.strategy1 profile.strategy2
    payoff2 := game.expectedPayoff2 profile.strategy1 profile.strategy2
    residual := nashResidual game profile.strategy1 profile.strategy2 }

def polish (result : EquilibriumResult m n) (profile : StrategyProfile m n) : EquilibriumResult m n :=
  let z0 := Sum.elim profile.strategy1 profile.strategy2
  let newton := numerics.newtonSolve (complementarity game) z0 tol.convTol 50
  if newton.converged then
    withProfile game result (normalised ⟨fun i => max 0 (newton.x (.inl i)), fun j => max 0 (newton.x (.inr j))⟩)
  else result

def name : String := "HomotopyContinuation"

def systemFor : HomotopySystem (computeStart tol game prior1 prior2).support1.length
    (computeStart tol game prior1 prior2).support2.length :=
  buildHomotopy game prior1 prior2 (computeStart tol game prior1 prior2).support1.get
    (computeStart tol game prior1 prior2).support2.get

def pathFrom : PathResult (computeStart tol game prior1 prior2).support1.length
    (computeStart tol game prior1 prior2).support2.length :=
  numerics.followPath (systemFor tol game prior1 prior2) (computeStart tol game prior1 prior2).w0

/-- The first path with its repairs; an accepted path is reported as convergence whatever the residual. -/
def firstResult : EquilibriumResult m n :=
  let start := computeStart tol game prior1 prior2
  let path := pathFrom tol game prior1 prior2 numerics
  let result : EquilibriumResult m n := { solverName := name, iterations := path.totalSteps }
  if accepted path then
    let w := pinToTarget tol numerics (systemFor tol game prior1 prior2) path.wFinal
    let profile := extractProfile w start.support1.get start.support2.get
    let result := withProfile game { result with status := .converged } profile
    if result.residual > tol.convTol then polish tol game numerics result profile else result
  else
    let profile := extractProfile path.wFinal start.support1.get start.support2.get
    { result with
      profile := some profile
      status := .numericalFailure
      residual := nashResidual game profile.strategy1 profile.strategy2 }

def endOf (path : PathResult k1 k2) (s1 : Fin k1 → Fin m) (s2 : Fin k2 → Fin n) : Option (StrategyProfile m n × ℕ) :=
  if accepted path then some (weightsAt path.wFinal s1 s2, path.totalSteps) else none

def retryWith : Option (StrategyProfile m n × ℕ) :=
  let start := computeStart tol game prior1 prior2
  endOf (pathFrom tol game prior1 prior2 numerics) start.support1.get start.support2.get

def improved (result : EquilibriumResult m n) (profile : StrategyProfile m n) (steps : ℕ) : EquilibriumResult m n :=
  withProfile game { result with iterations := result.iterations + steps } profile

def retryPerturbed : List (ℚ × ℚ) → EquilibriumResult m n → EquilibriumResult m n
  | [], result => result
  | pert :: rest, result =>
    match retryWith tol game (retryPrior pert m) (retryPrior pert n) numerics with
    | none => retryPerturbed rest result
    | some (weights, steps) =>
      let profile := normalised weights
      let res := nashResidual game profile.strategy1 profile.strategy2
      if res < result.residual then
        if res < tol.convTol then { improved game result profile steps with status := .converged }
        else retryPerturbed rest (improved game result profile steps)
      else retryPerturbed rest result

def tStart : ℚ := 1 / 100

def correct (sys : HomotopySystem k1 k2) (w : Point k1 k2) : Option (Point k1 k2) :=
  let h := sys.H w
  if normInf h < 1 / 10 ^ 12 then none
  else
    let layout : Unknown k1 k2 ≃ Fin (k1 + (k2 + 2)) :=
      (Equiv.sumCongr (Equiv.refl _) finSumFinEquiv).trans finSumFinEquiv
    let square := ((sys.DH w).submatrix layout.symm (embed ∘ layout.symm))
    match Nash.solve square (fun i => -h (layout.symm i)) (.below (1 / 10 ^ 14)) with
    | none => none
    | some dw => some (pinned (fun z => w (embed z) + dw (layout z)) tStart)

def correctMany (sys : HomotopySystem k1 k2) : ℕ → Point k1 k2 → Point k1 k2
  | 0, w => w
  | limit + 1, w =>
    match correct sys w with
    | none => w
    | some w' => correctMany sys limit w'

def retryUniform : Option (StrategyProfile m n × ℕ) :=
  let start := computeStart tol game (uniformPrior m) (uniformPrior n)
  let sys := systemFor tol game (uniformPrior m) (uniformPrior n)
  let w0 := correctMany sys 30 (pinned (start.w0 ∘ embed) tStart)
  endOf (numerics.followPath sys w0) start.support1.get start.support2.get

def lastRetry (result : EquilibriumResult m n) : EquilibriumResult m n :=
  match retryUniform tol game numerics with
  | none => result
  | some (weights, steps) =>
    let profile := normalised weights
    let res := nashResidual game profile.strategy1 profile.strategy2
    if res < result.residual then improved game result profile steps else result

def solveFrom : EquilibriumResult m n :=
  let result := firstResult tol game prior1 prior2 numerics
  let result := if result.residual > tol.convTol then retryPerturbed tol game numerics perturbations result else result
  let result := if result.residual > tol.convTol then lastRetry tol game numerics result else result
  if result.status ≠ .converged ∧ result.residual < tol.convTol then { result with status := .converged } else result

def solve (given1 : Option (Fin m → ℚ)) (given2 : Option (Fin n → ℚ)) : EquilibriumResult m n :=
  solveFrom tol game (given1.getD (defaultPrior m)) (given2.getD (defaultPrior n)) numerics

end Model

end Klett.Nash.HomotopySolver
