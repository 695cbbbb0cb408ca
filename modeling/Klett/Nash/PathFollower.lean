import Klett.Nash.Homotopy
import Klett.Nash.NullSpace
import Mathlib.Data.Fin.Tuple.Basic
import Mathlib.Data.Rat.Sqrt

namespace Klett.Nash.PathFollower

open Matrix

section Model

structure PathFollowerConfig where
  initialStep : ℚ := 1 / 100
  minStep : ℚ := 1 / 10 ^ 8
  maxStep : ℚ := 1 / 10
  stepIncrease : ℚ := 3 / 2
  stepDecrease : ℚ := 1 / 2
  correctorIter : ℤ := 10
  correctorTol : ℚ := 1 / 10 ^ 10
  maxSteps : ℤ := 50000
  targetT : ℚ := 1

abbrev Vec (n : ℕ) := Fin n → ℚ

structure HomotopySystem (n : ℕ) where
  H : Vec (n + 1) → Vec n
  DH : Vec (n + 1) → Matrix (Fin n) (Fin (n + 1)) ℚ

structure PathResult (n : ℕ) where
  wFinal : Vec (n + 1)
  tFinal : ℚ
  reachedTarget : Bool := false
  totalSteps : ℤ
  totalCorrections : ℤ
  failureReason : String := ""

def back {n : ℕ} (w : Vec (n + 1)) : ℚ := w (Fin.last n)

/-- What the library gives: square roots, and the factors that `null_space` scales its vectors with. -/
structure Numerics (n : ℕ) where
  sqrt : ℚ → ℚ
  scale : Matrix (Fin n) (Fin (n + 1)) ℚ → ℕ → ℚ

/-- The local variables of `follow_path` at the head of its loop. -/
structure Follower (n : ℕ) where
  s : ℤ := 0
  w : Vec (n + 1)
  step : ℚ
  directionSign : ℤ := 1
  totalSteps : ℤ := 0
  totalCorrections : ℤ := 0

variable {n : ℕ}

def combination (first : Vec (n + 1)) (rest : List (Vec (n + 1))) : Vec (n + 1) :=
  (rest.zipIdx 1).foldl (fun tangent u => tangent + (1 + 1 / 10 * (u.2 : ℚ)) • u.1) first

/-- Of several vectors the first with the most movement in `t`. -/
def steepest (first : Vec (n + 1)) (rest : List (Vec (n + 1))) : ℚ × Vec (n + 1) :=
  rest.foldl (fun best u => if best.1 < |back u| then (|back u|, u) else best) (|back first|, first)

def selectTangent : List (Vec (n + 1)) → Option (Vec (n + 1))
  | [] => none
  | [v] => some v
  | v :: rest => some (if (steepest v rest).1 < 1 / 10 ^ 14 then combination v rest else (steepest v rest).2)

def chooseDirection (tangent : Vec (n + 1)) : ℤ := if 0 ≤ back tangent then 1 else -1

/-- On the first step the direction is recorded, and the tangent stays as it is. -/
def orient (s : ℤ) (directionSign : ℤ) (tangent : Vec (n + 1)) : ℤ × Vec (n + 1) :=
  if s = 0 then (chooseDirection tangent, tangent)
  else (directionSign, if back tangent * directionSign < 0 then -tangent else tangent)

variable (numerics : Numerics n)

def Numerics.norm2 (v : Vec (n + 1)) : ℚ := numerics.sqrt (v ⬝ᵥ v)

def Numerics.kernel (J : Matrix (Fin n) (Fin (n + 1)) ℚ) : List (Vec (n + 1)) :=
  nullSpace J (.below (1 / 10 ^ 12)) (numerics.scale J)

variable (sys : HomotopySystem n)

/-- The oriented tangent of unit length, with the direction sign, or the reason why there is none. -/
def aim (f : Follower n) : Except String (ℤ × Vec (n + 1)) :=
  match selectTangent (numerics.kernel (sys.DH f.w)) with
  | none => .error "Jacobian has full rank (no tangent)"
  | some tangent =>
    let (sign, tangent) := orient f.s f.directionSign tangent
    if numerics.norm2 tangent < 1 / 10 ^ 15 then .error "Zero tangent vector"
    else .ok (sign, fun i => tangent i / numerics.norm2 tangent)

variable (cfg : PathFollowerConfig)

def effectiveStep (f : Follower n) (tangent : Vec (n + 1)) : ℚ :=
  if back f.w + f.step * back tangent > cfg.targetT + 1 / 100 ∧ |back tangent| > 1 / 10 ^ 15 then
    max ((cfg.targetT - back f.w) / back tangent) cfg.minStep
  else f.step

def predict (f : Follower n) (tangent : Vec (n + 1)) : Vec (n + 1) :=
  fun i => f.w i + effectiveStep cfg f tangent * tangent i

def augmented (J : Matrix (Fin n) (Fin (n + 1)) ℚ) (tangent : Vec (n + 1)) : Matrix (Fin (n + 1)) (Fin (n + 1)) ℚ :=
  Matrix.of (Fin.snoc (fun i => J i) tangent)

/-- The corrector loop, with `c` turns left: whether it converged, where it ended, and the corrections so far. -/
def correct (tangent wPred : Vec (n + 1)) : ℕ → Vec (n + 1) → ℤ → Bool × Vec (n + 1) × ℤ
  | 0, wCorr, total => (false, wCorr, total)
  | c + 1, wCorr, total =>
    let Hw := sys.H wCorr
    let res := HomotopySolver.normInf Hw
    let plane := tangent ⬝ᵥ (wCorr - wPred)
    if res < cfg.correctorTol ∧ |plane| < cfg.correctorTol then (true, wCorr, total + 1)
    else if res < cfg.correctorTol * (1 / 100) then (true, wCorr, total + 1)
    else
      match solve (augmented (sys.DH wCorr) tangent) (Fin.snoc (-Hw) (-plane)) (.below (1 / 10 ^ 14)) with
      | none => (false, wCorr, total + 1)
      | some dw => correct tangent wPred c (wCorr + dw) (total + 1)

def failed (f : Follower n) (reason : String) : PathResult n where
  wFinal := f.w
  tFinal := back f.w
  totalSteps := f.totalSteps
  totalCorrections := f.totalCorrections
  failureReason := reason

def reached (f : Follower n) : PathResult n where
  wFinal := f.w
  tFinal := back f.w
  reachedTarget := true
  totalSteps := f.totalSteps
  totalCorrections := f.totalCorrections

/-- The step control. A failure is tried again under the same `s`, with a smaller step. -/
def control (f : Follower n) (sign : ℤ) (corrected : Bool × Vec (n + 1) × ℤ) : PathResult n ⊕ Follower n :=
  let f := { f with directionSign := sign, totalCorrections := corrected.2.2 }
  if corrected.1 then
    .inr { f with s := f.s + 1, w := corrected.2.1, step := min (f.step * cfg.stepIncrease) cfg.maxStep }
  else if f.step * cfg.stepDecrease < cfg.minStep then .inl (failed f "Step size below minimum")
  else .inr { f with step := f.step * cfg.stepDecrease }

def turn (f : Follower n) : PathResult n ⊕ Follower n :=
  if f.s < cfg.maxSteps then
    if back f.w ≥ cfg.targetT - 1 / 10 ^ 12 then .inl (reached f)
    else
      let f := { f with totalSteps := f.s + 1 }
      match aim numerics sys f with
      | .error reason => .inl (failed f reason)
      | .ok (sign, tangent) =>
        let wPred := predict cfg f tangent
        control cfg f sign (correct sys cfg tangent wPred cfg.correctorIter.toNat wPred f.totalCorrections)
  else .inl (failed f "Maximum steps exceeded")

def loop : ℕ → Follower n → Option (PathResult n)
  | 0, _ => none
  | fuel + 1, f =>
    match turn numerics sys cfg f with
    | .inl result => some result
    | .inr next => loop fuel next

def start (w0 : Vec (n + 1)) : Follower n where
  w := w0
  step := cfg.initialStep

def followPath (w0 : Vec (n + 1)) (fuel : ℕ) : Option (PathResult n) :=
  loop numerics sys cfg fuel (start cfg w0)

end Model

section Turns

variable {n : ℕ} {numerics : Numerics n} {sys : HomotopySystem n} {cfg : PathFollowerConfig} {f next : Follower n}
  {result : PathResult n}

/-- A turn goes on with the next `s` after a success, and under the same `s` from the same point after a failure. -/
inductive Advances (cfg : PathFollowerConfig) (f next : Follower n) : Prop
  | success (hs : next.s = f.s + 1) (hstep : next.step = min (f.step * cfg.stepIncrease) cfg.maxStep)
  | failure (hs : next.s = f.s) (hw : next.w = f.w) (hstep : next.step = f.step * cfg.stepDecrease)
      (hmin : cfg.minStep ≤ next.step)

theorem control_inr {sign : ℤ} {corrected : Bool × Vec (n + 1) × ℤ} (h : control cfg f sign corrected = .inr next) :
    Advances cfg f next ∧ next.directionSign = sign ∧ next.totalSteps = f.totalSteps := by
  unfold control at h
  simp only at h
  split_ifs at h with hok hmin
  · obtain rfl := Sum.inr.inj h
    exact ⟨.success rfl rfl, rfl, rfl⟩
  · obtain rfl := Sum.inr.inj h
    exact ⟨.failure rfl rfl rfl (not_lt.mp hmin), rfl, rfl⟩

theorem control_inl {sign : ℤ} {corrected : Bool × Vec (n + 1) × ℤ} (h : control cfg f sign corrected = .inl result) :
    result.reachedTarget = false ∧ result.totalSteps = f.totalSteps := by
  unfold control at h
  simp only at h
  split_ifs at h
  obtain rfl := Sum.inl.inj h
  exact ⟨rfl, rfl⟩

structure Predicts (numerics : Numerics n) (sys : HomotopySystem n) (cfg : PathFollowerConfig) (f : Follower n)
    (sign : ℤ) (tangent : Vec (n + 1)) : Prop where
  running : f.s < cfg.maxSteps
  short : back f.w < cfg.targetT - 1 / 10 ^ 12
  aimed : aim numerics sys f = .ok (sign, tangent)

theorem turn_inr (h : turn numerics sys cfg f = .inr next) : Advances cfg f next ∧ next.totalSteps = f.s + 1 ∧
    ∃ tangent, Predicts numerics sys cfg f next.directionSign tangent := by
  unfold turn at h
  split_ifs at h with hs ht
  cases haim : aim numerics sys f with
  | error reason =>
    have haim' : aim numerics sys { f with totalSteps := f.s + 1 } = .error reason := haim
    simp only [haim'] at h
    cases h
  | ok found =>
    obtain ⟨sign, tangent⟩ := found
    have haim' : aim numerics sys { f with totalSteps := f.s + 1 } = .ok (sign, tangent) := haim
    simp only [haim'] at h
    obtain ⟨hadvances, rfl, htotal⟩ := control_inr h
    refine ⟨?_, htotal, tangent, hs, not_le.mp ht, haim⟩
    cases hadvances with
    | success hs hstep => exact .success hs hstep
    | failure hs hw hstep hmin => exact .failure hs hw hstep hmin

theorem turn_inl (h : turn numerics sys cfg f = .inl result) :
    (result.reachedTarget = true → cfg.targetT - 1 / 10 ^ 12 ≤ result.tFinal) ∧
      (result.totalSteps = f.totalSteps ∨ f.s < cfg.maxSteps ∧ result.totalSteps = f.s + 1) := by
  unfold turn at h
  split_ifs at h with hs ht
  · obtain rfl := Sum.inl.inj h
    exact ⟨fun _ => ht, .inl rfl⟩
  · simp only at h
    split at h
    · obtain rfl := Sum.inl.inj h
      refine ⟨fun hreached => ?_, .inr ⟨hs, rfl⟩⟩
      cases hreached
    · obtain ⟨hfalse, htotal⟩ := control_inl h
      refine ⟨fun hreached => ?_, .inr ⟨hs, htotal⟩⟩
      rw [hfalse] at hreached
      cases hreached
  · obtain rfl := Sum.inl.inj h
    refine ⟨fun hreached => ?_, .inl rfl⟩
    cases hreached

theorem loop_inl (h : turn numerics sys cfg f = .inl result) (fuel : ℕ) :
    loop numerics sys cfg (fuel + 1) f = some result := by rw [loop, h]

theorem loop_inr (h : turn numerics sys cfg f = .inr next) (fuel : ℕ) :
    loop numerics sys cfg (fuel + 1) f = loop numerics sys cfg fuel next := by rw [loop, h]

end Turns

section Line

/-- The line through the origin along which `z` falls where `t` rises. -/
def line : HomotopySystem 1 where
  H w := !![3, 4] *ᵥ w
  DH _ := !![3, 4]

/-- The kernel of its matrix has the vector `(1, -3/4)` of length `5/4`. -/
def lineNumerics : Numerics 1 where
  sqrt := Rat.sqrt
  scale _ _ := 4 / 5

end Line

end Klett.Nash.PathFollower
