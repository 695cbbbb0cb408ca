import Klett.Nash.HomotopyStatus

namespace Klett.Nash.HomotopySolver

open Klett.Lib

section Solver

variable {m n : ℕ} (tol : Tolerances) (game : BimatrixGame m n) (numerics : Numerics)

/-- The solver's own fields. Priors that are not given are empty. -/
structure Solver where
  prior1 : List ℚ := []
  prior2 : List ℚ := []

def filled (prior : List ℚ) (k : ℕ) : List ℚ := if prior = [] then List.ofFn (defaultPrior k) else prior

def Solver.fillIn (solver : Solver) (m n : ℕ) : Solver where
  prior1 := filled solver.prior1 m
  prior2 := filled solver.prior2 n

/-- `matvec` asserts that the vector has an entry for each column. -/
def sized (prior : List ℚ) (k : ℕ) : Option (Fin k → ℚ) :=
  if h : prior.length = k then some fun i => prior.get (i.cast h.symm) else none

def Solver.priors (solver : Solver) (m n : ℕ) : Option ((Fin m → ℚ) × (Fin n → ℚ)) :=
  (sized solver.prior2 n).bind fun prior2 => (sized solver.prior1 m).map fun prior1 => (prior1, prior2)

abbrev Attempt (m n : ℕ) := (Fin m → ℚ) → (Fin n → ℚ) → Option (StrategyProfile m n × ℕ)

def startLate : Attempt m n := fun prior1 prior2 =>
  let start := computeStart tol game prior1 prior2
  let sys := systemFor tol game prior1 prior2
  let w0 := correctMany sys 30 (pinned (start.w0 ∘ embed) tStart)
  endOf (numerics.followPath sys w0) start.support1.get start.support2.get

/-- The priors are put aside, and back again after the attempt. -/
def Solver.retry (solver : Solver) (prior1 : Fin m → ℚ) (prior2 : Fin n → ℚ) (attempt : Attempt m n) :
    Option (Option (StrategyProfile m n × ℕ) × Solver) :=
  let old := solver
  let solver := { prior1 := List.ofFn prior1, prior2 := List.ofFn prior2 : Solver }
  (solver.priors m n).map fun priors =>
    (attempt priors.1 priors.2, { solver with prior1 := old.prior1, prior2 := old.prior2 })

def Solver.retryPerturbed :
    Solver → List (ℚ × ℚ) → EquilibriumResult m n → Option (EquilibriumResult m n × Solver)
  | solver, [], result => some (result, solver)
  | solver, pert :: rest, result =>
    match solver.retry (retryPrior pert m) (retryPrior pert n) (retryWith tol game · · numerics) with
    | none => none
    | some (none, solver) => solver.retryPerturbed rest result
    | some (some (weights, steps), solver) =>
      let profile := normalised weights
      let res := nashResidual game profile.strategy1 profile.strategy2
      if res < result.residual then
        if res < tol.convTol then some ({ improved game result profile steps with status := .converged }, solver)
        else solver.retryPerturbed rest (improved game result profile steps)
      else solver.retryPerturbed rest result

def Solver.lastRetry (solver : Solver) (result : EquilibriumResult m n) : Option (EquilibriumResult m n × Solver) :=
  match solver.retry (uniformPrior m) (uniformPrior n) (startLate tol game numerics) with
  | none => none
  | some (none, solver) => some (result, solver)
  | some (some (weights, steps), solver) =>
    let profile := normalised weights
    let res := nashResidual game profile.strategy1 profile.strategy2
    if res < result.residual then some (improved game result profile steps, solver) else some (result, solver)

def declared (result : EquilibriumResult m n) : EquilibriumResult m n :=
  if result.status ≠ .converged ∧ result.residual < tol.convTol then { result with status := .converged } else result

/-- Nothing where a size precondition is violated. -/
def Solver.solve (solver : Solver) : Option (EquilibriumResult m n × Solver) :=
  let solver := solver.fillIn m n
  (solver.priors m n).bind fun priors =>
    let result := firstResult tol game priors.1 priors.2 numerics
    (if result.residual > tol.convTol then solver.retryPerturbed tol game numerics perturbations result
      else some (result, solver)).bind fun (result, solver) =>
    (if result.residual > tol.convTol then solver.lastRetry tol game numerics result
      else some (result, solver)).map fun (result, solver) => (declared tol result, solver)

structure SizedGame where
  rows : ℕ
  cols : ℕ
  game : BimatrixGame rows cols

structure SizedResult where
  rows : ℕ
  cols : ℕ
  result : EquilibriumResult rows cols

def Solver.solveEach : Solver → List SizedGame → Option (List SizedResult)
  | _, [] => some []
  | solver, g :: rest =>
    match solver.solve tol g.game numerics with
    | none => none
    | some (result, solver) => (solver.solveEach rest).map (⟨g.rows, g.cols, result⟩ :: ·)

def fresh (g : SizedGame) : SizedResult :=
  ⟨g.rows, g.cols, HomotopySolver.solve tol g.game numerics none none⟩

end Solver

section Restore

variable {m n k l : ℕ} {tol : Tolerances} {game : BimatrixGame m n} {numerics : Numerics}

theorem sized_ofFn (v : Fin k → ℚ) : sized (List.ofFn v) k = some v := by
  simp [sized]

theorem sized_eq_none {prior : List ℚ} (h : prior.length ≠ k) : sized prior k = none :=
  dif_neg h

theorem priors_ofFn (v : Fin m → ℚ) (w : Fin n → ℚ) :
    Solver.priors { prior1 := List.ofFn v, prior2 := List.ofFn w } m n = some (v, w) := by
  simp [Solver.priors, sized_ofFn]

theorem retry_eq (solver : Solver) (v : Fin m → ℚ) (w : Fin n → ℚ) (attempt : Attempt m n) :
    solver.retry v w attempt = some (attempt v w, solver) := by
  simp [Solver.retry, priors_ofFn]

theorem retryPerturbed_eq (solver : Solver) (l : List (ℚ × ℚ)) (result : EquilibriumResult m n) :
    solver.retryPerturbed tol game numerics l result =
      some (retryPerturbed tol game numerics l result, solver) := by
  induction l generalizing result with
  | nil => rfl
  | cons pert rest ih =>
    rw [Solver.retryPerturbed, retry_eq, retryPerturbed]
    split
    · contradiction
    · rename_i heq
      obtain ⟨hnone, rfl⟩ := Prod.mk.inj (Option.some.inj heq)
      rw [hnone]
      exact ih result
    · rename_i heq
      obtain ⟨hsome, rfl⟩ := Prod.mk.inj (Option.some.inj heq)
      rw [hsome]
      dsimp only
      split_ifs
      · rfl
      · exact ih _
      · exact ih result

theorem lastRetry_eq (solver : Solver) (result : EquilibriumResult m n) :
    solver.lastRetry tol game numerics result = some (lastRetry tol game numerics result, solver) := by
  have huniform : retryUniform tol game numerics = startLate tol game numerics (uniformPrior m) (uniformPrior n) :=
    rfl
  rw [Solver.lastRetry, retry_eq, lastRetry, huniform]
  cases startLate tol game numerics (uniformPrior m) (uniformPrior n) with
  | none => rfl
  | some found =>
    dsimp only
    split_ifs <;> rfl

theorem solve_of_priors {solver : Solver} {v : Fin m → ℚ} {w : Fin n → ℚ}
    (h : (solver.fillIn m n).priors m n = some (v, w)) :
    solver.solve tol game numerics = some (solveFrom tol game v w numerics, solver.fillIn m n) := by
  have hif (c : Prop) [Decidable c] (a b : EquilibriumResult m n) :
      (if c then some (a, solver.fillIn m n) else some (b, solver.fillIn m n)) =
        some (if c then a else b, solver.fillIn m n) := by
    split_ifs <;> rfl
  simp only [Solver.solve, h, Option.bind_some, retryPerturbed_eq, lastRetry_eq, hif, Option.map_some]
  rfl

def primed (m n : ℕ) : Solver where
  prior1 := List.ofFn (defaultPrior m)
  prior2 := List.ofFn (defaultPrior n)

theorem filled_ofFn (hk : 0 < k) (l : ℕ) : filled (List.ofFn (defaultPrior k)) l = List.ofFn (defaultPrior k) := by
  apply if_neg
  rw [← List.length_eq_zero_iff, List.length_ofFn]
  exact hk.ne'

theorem fillIn_primed (hk : 0 < k) (hl : 0 < l) (m n : ℕ) : (primed k l).fillIn m n = primed k l := by
  simp [Solver.fillIn, primed, filled_ofFn hk, filled_ofFn hl]

theorem solve_empty (game : BimatrixGame m n) : ({} : Solver).solve tol game numerics =
    some (HomotopySolver.solve tol game numerics none none, primed m n) :=
  solve_of_priors (priors_ofFn _ _)

theorem solve_primed (game : BimatrixGame m n) : (primed m n).solve tol game numerics =
    some (HomotopySolver.solve tol game numerics none none, primed m n) := by
  have hfill := fillIn_primed game.rows_pos game.cols_pos m n
  rw [solve_of_priors (v := defaultPrior m) (w := defaultPrior n), hfill]
  · rfl
  · rw [hfill]
    exact priors_ofFn _ _

theorem solve_primed_of_ne (hk : 0 < k) (hl : 0 < l) (h : k ≠ m ∨ l ≠ n) :
    (primed k l).solve tol game numerics = none := by
  have hnone : (primed k l).priors m n = none := by
    rw [Solver.priors, Option.bind_eq_none_iff]
    intro prior2 hprior2
    rw [sized_eq_none, Option.map_none]
    rw [primed, List.length_ofFn]
    rintro rfl
    rw [sized_eq_none] at hprior2
    · exact nomatch hprior2
    · rw [primed, List.length_ofFn]
      tauto
  simp only [Solver.solve, fillIn_primed hk hl, hnone, Option.bind_none]

end Restore

section Reuse

variable (tol : Tolerances) (numerics : Numerics)

theorem solveEach_primed_iff {k l : ℕ} (hk : 0 < k) (hl : 0 < l) (games : List SizedGame) :
    (primed k l).solveEach tol numerics games = some (games.map (fresh tol numerics)) ↔
      ∀ g ∈ games, k = g.rows ∧ l = g.cols := by
  induction games with
  | nil => simp [Solver.solveEach]
  | cons g rest ih =>
    rw [Solver.solveEach, List.forall_mem_cons, ← ih]
    by_cases hsame : k = g.rows ∧ l = g.cols
    · obtain ⟨rfl, rfl⟩ := hsame
      rw [solve_primed, List.map_cons]
      simp [fresh]
    · rw [solve_primed_of_ne hk hl (by tauto)]
      simp [hsame]

/-- A solver constructed without priors can be used again exactly on games of the first one's sizes. -/
theorem solveEach_eq_fresh_iff (games : List SizedGame) :
    ({} : Solver).solveEach tol numerics games = some (games.map (fresh tol numerics)) ↔
      ∀ g ∈ games, ∀ g' ∈ games, g.rows = g'.rows ∧ g.cols = g'.cols := by
  cases games with
  | nil => simp [Solver.solveEach]
  | cons g rest =>
    have hrest := solveEach_primed_iff tol numerics g.game.rows_pos g.game.cols_pos rest
    have hcons (results : Option (List SizedResult)) :
        results.map (fresh tol numerics g :: ·) = some ((g :: rest).map (fresh tol numerics)) ↔
          results = some (rest.map (fresh tol numerics)) := by
      cases results <;> simp
    rw [Solver.solveEach, solve_empty]
    apply ((hcons _).trans hrest).trans
    constructor
    · intro h a ha b hb
      have hfirst : ∀ c ∈ g :: rest, g.rows = c.rows ∧ g.cols = c.cols := List.forall_mem_cons.mpr ⟨⟨rfl, rfl⟩, h⟩
      exact ⟨(hfirst a ha).1.symm.trans (hfirst b hb).1, (hfirst a ha).2.symm.trans (hfirst b hb).2⟩
    · intro h a ha
      exact h g List.mem_cons_self a (List.mem_cons_of_mem _ ha)

def oneAction : BimatrixGame 1 1 where
  payoff1 := !![1]
  payoff2 := !![1]
  rows_pos := Nat.one_pos
  cols_pos := Nat.one_pos

/-- The priors filled in for the first game stay, and have an entry too many for the second. -/
theorem solveEach_ne_fresh : ({} : Solver).solveEach {} straight [⟨2, 2, biasedPennies⟩, ⟨1, 1, oneAction⟩] ≠
    some ([⟨2, 2, biasedPennies⟩, ⟨1, 1, oneAction⟩].map (fresh {} straight)) := by
  rw [Solver.solveEach, solve_empty]
  simp [Solver.solveEach, solve_primed_of_ne]

end Reuse

end Klett.Nash.HomotopySolver
