import Klett.Luft.FlightLaws
import Mathlib.Tactic.IntervalCases

namespace Klett.Luft

open Klett.Lib Cmath

section FreeFall

variable {K : Type*} [Field K] [LinearOrder K] [IsStrictOrderedRing K] [Cmath K]

namespace FlightDynamics

/-- `n` calls of `update`, each with an input, a density and a wind of its own. -/
def updates (aero : AircraftState K → AircraftParams K → ControlInput K → K → ForcesAndMoments K)
    (state : AircraftState K) (params : AircraftParams K) (input : ℕ → ControlInput K) (density : ℕ → K)
    (wind : ℕ → Vec3 K) (dt : K) : ℕ → AircraftState K
  | 0 => state
  | n + 1 => update aero (updates aero state params input density wind dt n) params (input n) (density n) (wind n) dt

def noAero (_ : AircraftState K) (_ : AircraftParams K) (_ : ControlInput K) (_ : K) : ForcesAndMoments K where
  force := ⟨0, 0, 0⟩
  moment := ⟨0, 0, 0⟩

def fallen (p v : Vec3 K) (t : K) : Vec3 K := p + v * t + ⟨0, 0, kGravity * t ^ 2 / 2.0⟩

structure Free (q : Quaternion K) (state : AircraftState K) : Prop where
  orientation : state.orientation = q
  angularVelocity : state.angularVelocity = ⟨0, 0, 0⟩
  fuel : state.fuelMass = 0
  thrust : state.thrustCurrent = 0

def drift (q : Quaternion K) (v : Vec3 K) : StateDerivatives K where
  positionDot := q.rotate v
  velocityBodyDot := q.inverseRotate ⟨0, 0, kGravity⟩
  orientationDot := ⟨0, 0, 0, 0⟩
  omegaDot := ⟨0, 0, 0⟩

variable {q : Quaternion K} {state : AircraftState K}

theorem Free.derivatives (h : Free q state) {params : AircraftParams K} (hmass : params.emptyMass ≠ 0)
    (input : ControlInput K) (density : K) (wind : Vec3 K) :
    computeDerivatives noAero state params input density wind = drift q state.velocityBody := by
  obtain ⟨rfl, homega, hfuel, hthrust⟩ := h
  have htotal : state.totalMass params = params.emptyMass := by rw [AircraftState.totalMass, hfuel, add_zero]
  have hweight : (⟨0, 0, params.emptyMass * kGravity⟩ : Vec3 K) / params.emptyMass = ⟨0, 0, kGravity⟩ := by
    ext
    · exact zero_div _
    · exact zero_div _
    · exact mul_div_cancel_left₀ _ hmass
  apply StateDerivatives.ext
  · rfl
  · rw [velocityBodyDot_eq, homega, hthrust, htotal, zero_literal, drift, ← hweight, Quaternion.inverseRotate_div]
    ext <;> simp [noAero, Vec3.cross]
  · simp only [computeDerivatives, homega, Quaternion.derivative_zero, drift]
  · simp only [computeDerivatives, homega, noAero, drift]
    ext <;> simp [Vec3.cross]

theorem Free.stage (h : Free q state) (hunit : q.norm = 1) {d : StateDerivatives K}
    (hrotation : d.orientationDot = ⟨0, 0, 0, 0⟩) (hspin : d.omegaDot = ⟨0, 0, 0⟩) (step : K) :
    Free q (applyStep state d step) where
  orientation := by
    have hstill : state.orientation + d.orientationDot * step = q := by
      rw [h.orientation, hrotation]
      ext <;> simp
    rw [applyStep, hstill, Quaternion.normalized_unit hunit]
  angularVelocity := by
    rw [applyStep, h.angularVelocity, hspin]
    ext <;> simp
  fuel := h.fuel
  thrust := h.thrust

omit [Cmath K] in
theorem combine_drift (v1 v2 v3 v4 : Vec3 K) : combine (drift q v1) (drift q v2) (drift q v3) (drift q v4) =
    { positionDot := q.rotate (v1 + v2 * (2 : K) + v3 * (2 : K) + v4)
      velocityBodyDot := q.inverseRotate ⟨0, 0, kGravity⟩ * (6 : K)
      orientationDot := ⟨0, 0, 0, 0⟩
      omegaDot := ⟨0, 0, 0⟩ } := by
  have htwo : (2.0 : K) = 2 := by norm_num
  have hsum (x : K) : x + x * 2 + x * 2 + x = x * 6 := by ring
  simp only [combine, drift, htwo, ← Quaternion.rotate_mul, ← Quaternion.rotate_add]
  apply StateDerivatives.ext
  · rfl
  · ext <;> exact hsum _
  · ext <;> simp
  · ext <;> simp

variable {params : AircraftParams K} {dt : K}

theorem Free.integrate (h : Free q state) (hunit : q.norm = 1) (hmass : params.emptyMass ≠ 0)
    (input : ControlInput K) (density : K) (wind : Vec3 K) (dt : K) :
    let a := q.inverseRotate ⟨0, 0, kGravity⟩
    let result := integrate noAero state params input density wind dt
    Free q result ∧
      result.position = state.position + q.rotate (state.velocityBody + a * (dt / 2)) * dt ∧
      result.velocityBody = state.velocityBody + a * dt := by
  intro a result
  have hhalf : (0.5 : K) = 1 / 2 := by norm_num
  have hsix : (6.0 : K) = 6 := by norm_num
  have hstage (v : Vec3 K) (step : K) : computeDerivatives noAero (applyStep state (drift q v) step) params input
      density wind = drift q (state.velocityBody + a * step) :=
    (h.stage hunit rfl rfl step).derivatives hmass input density wind
  -- the weights of the four stages add up to the exact solution
  have hresult : result = applyStep state
      { positionDot := q.rotate (state.velocityBody + (state.velocityBody + a * (dt * 0.5)) * (2 : K) +
          (state.velocityBody + a * (dt * 0.5)) * (2 : K) + (state.velocityBody + a * dt))
        velocityBodyDot := a * (6 : K)
        orientationDot := ⟨0, 0, 0, 0⟩
        omegaDot := ⟨0, 0, 0⟩ } (dt / 6.0) := by
    simp only [result, FlightDynamics.integrate, h.derivatives hmass, hstage, combine_drift, a]
  rw [hresult]
  refine ⟨h.stage hunit rfl rfl _, ?_, ?_⟩
  · simp only [applyStep, hhalf, hsix, ← Quaternion.rotate_mul]
    congr 2
    ext
    all_goals
      simp only [Vec3.add_x, Vec3.add_y, Vec3.add_z, Vec3.mul_x, Vec3.mul_y, Vec3.mul_z]
      ring
  · simp only [applyStep, hsix]
    ext
    all_goals
      simp only [Vec3.add_x, Vec3.add_y, Vec3.add_z, Vec3.mul_x, Vec3.mul_y, Vec3.mul_z]
      ring

omit [Cmath K] in
/-- Without fuel the engine is dead after the first line of an update, whatever the throttle. -/
theorem burn_of_empty (hfuel : state.fuelMass = 0) (hsfc : 0 ≤ params.sfc) (hdt : 0 < dt) (input : ControlInput K)
    (density : K) : burn state params input density dt = { state with fuelMass := 0, thrustCurrent := 0 } := by
  obtain ⟨used, thrust, hused, -, ⟨-, hburn⟩ | ⟨hpos, -⟩⟩ := burn_cases state input density hsfc hdt.le
  · exact hburn
  · rw [hfuel, zero_sub] at hpos
    exact absurd hpos (neg_nonpos.mpr hused).not_gt

omit [Cmath K] in
theorem groundContact_of_above (habove : 0 ≤ -state.position.z) :
    groundContact state = { state with altitudeMsl := -state.position.z } := by
  simp only [groundContact, zero_literal, if_neg habove.not_gt]

structure Falling (q : Quaternion K) (p v : Vec3 K) (state : AircraftState K) : Prop where
  orientation : state.orientation = q
  angularVelocity : state.angularVelocity = ⟨0, 0, 0⟩
  fuel : state.fuelMass = 0
  position : state.position = p
  velocity : q.rotate state.velocityBody = v

omit [Cmath K] in
theorem fallen_eq (p v : Vec3 K) (t : K) : fallen p v t = p + v * t + ⟨0, 0, kGravity * t ^ 2 / 2⟩ := by
  have htwo : (2.0 : K) = 2 := by norm_num
  rw [fallen, htwo]

omit [Cmath K] in
theorem fallen_zero (p v : Vec3 K) : fallen p v 0 = p := by
  rw [fallen_eq]
  ext <;> simp

omit [Cmath K] in
theorem fallen_add (p v : Vec3 K) (t dt : K) :
    fallen (fallen p v t) (v + ⟨0, 0, kGravity * t⟩) dt = fallen p v (t + dt) := by
  ext
  all_goals
    simp only [fallen_eq, Vec3.add_x, Vec3.add_y, Vec3.add_z, Vec3.mul_x, Vec3.mul_y, Vec3.mul_z]
    ring

variable [ExactCmath K] {p v : Vec3 K}

theorem Falling.update (h : Falling q p v state) (hunit : q.norm = 1) (hmass : params.emptyMass ≠ 0)
    (hsfc : 0 ≤ params.sfc) (hdt : 0 < dt) (habove : 0 ≤ -(fallen p v dt).z) (input : ControlInput K) (density : K)
    (wind : Vec3 K) :
    Falling q (fallen p v dt) (v + ⟨0, 0, kGravity * dt⟩) (update noAero state params input density wind dt) := by
  let burnt : AircraftState K := { state with fuelMass := 0, thrustCurrent := 0 }
  have hfree : Free q burnt := ⟨h.orientation, h.angularVelocity, rfl, rfl⟩
  obtain ⟨hflies, hposition, hvelocity⟩ := hfree.integrate hunit hmass input density wind dt
  have hdown : q.rotate (q.inverseRotate ⟨0, 0, kGravity⟩) = ⟨0, 0, kGravity⟩ :=
    Quaternion.rotate_inverseRotate hunit _
  have hfallen : (FlightDynamics.integrate noAero burnt params input density wind dt).position = fallen p v dt := by
    rw [hposition, h.position, Quaternion.rotate_add, Quaternion.rotate_mul, hdown, h.velocity]
    ext
    all_goals
      simp only [fallen_eq, Vec3.add_x, Vec3.add_y, Vec3.add_z, Vec3.mul_x, Vec3.mul_y, Vec3.mul_z]
      ring
  have hupdate : FlightDynamics.update noAero state params input density wind dt = deriveAirData
      { FlightDynamics.integrate noAero burnt params input density wind dt with
        altitudeMsl := -(FlightDynamics.integrate noAero burnt params input density wind dt).position.z }
      density wind := by
    rw [FlightDynamics.update, burn_of_empty h.fuel hsfc hdt, groundContact_of_above]
    rwa [hfallen]
  rw [hupdate]
  refine ⟨hflies.orientation, hflies.angularVelocity, hflies.fuel, hfallen, ?_⟩
  dsimp only [deriveAirData]
  rw [hvelocity, Quaternion.rotate_add, Quaternion.rotate_mul, hdown, h.velocity]
  ext <;> simp

theorem falling_updates (hunit : q.norm = 1) (h : Falling q p v state) (hmass : params.emptyMass ≠ 0)
    (hsfc : 0 ≤ params.sfc) (hdt : 0 < dt) (input : ℕ → ControlInput K) (density : ℕ → K) (wind : ℕ → Vec3 K) (n : ℕ)
    (habove : ∀ k ≤ n, 0 ≤ -(fallen p v (k * dt)).z) :
    Falling q (fallen p v (n * dt)) (v + ⟨0, 0, kGravity * (n * dt)⟩)
      (updates noAero state params input density wind dt n) := by
  induction n with
  | zero =>
    have hvelocity : v + ⟨0, 0, kGravity * (((0 : ℕ) : K) * dt)⟩ = v := by ext <;> simp
    rw [hvelocity, Nat.cast_zero, zero_mul, fallen_zero]
    exact h
  | succ n ih =>
    have htime : ((n + 1 : ℕ) : K) * dt = n * dt + dt := by
      push_cast
      ring
    have hnext := habove (n + 1) le_rfl
    rw [htime, ← fallen_add] at hnext
    have hstep := (ih fun k hk => habove k (Nat.le_succ_of_le hk)).update hunit hmass hsfc hdt hnext (input n)
      (density n) (wind n)
    have hvelocity : v + ⟨0, 0, kGravity * (n * dt)⟩ + ⟨0, 0, kGravity * dt⟩ =
        v + ⟨0, 0, kGravity * (n * dt + dt)⟩ := by
      ext
      all_goals
        simp only [Vec3.add_x, Vec3.add_y, Vec3.add_z]
        ring
    rw [fallen_add, hvelocity, ← htime] at hstep
    exact hstep

theorem free_fall (hunit : state.orientation.norm = 1) (hspin : state.angularVelocity = ⟨0, 0, 0⟩)
    (hfuel : state.fuelMass = 0) (hmass : params.emptyMass ≠ 0) (hsfc : 0 ≤ params.sfc) (hdt : 0 < dt)
    (input : ℕ → ControlInput K) (density : ℕ → K) (wind : ℕ → Vec3 K) (n : ℕ)
    (habove : ∀ k ≤ n, 0 ≤ -(fallen state.position (state.orientation.rotate state.velocityBody) (k * dt)).z) :
    let p0 := state.position
    let v0 := state.orientation.rotate state.velocityBody
    let t := n * dt
    let result := updates noAero state params input density wind dt n
    result.position = p0 + v0 * t + ⟨0, 0, kGravity * t ^ 2 / 2⟩ ∧
      result.orientation.rotate result.velocityBody = v0 + ⟨0, 0, kGravity * t⟩ ∧
      result.orientation = state.orientation := by
  intro p0 v0 t result
  have hstart : Falling state.orientation p0 v0 state := ⟨rfl, hspin, hfuel, rfl, rfl⟩
  have hfalling := falling_updates hunit hstart hmass hsfc hdt input density wind n habove
  refine ⟨?_, ?_, hfalling.orientation⟩
  · rw [hfalling.position, fallen_eq]
  · rw [hfalling.orientation]
    exact hfalling.velocity

end FlightDynamics

end FreeFall

section Reals

open FlightDynamics

noncomputable def droppedState : AircraftState ℝ where
  position := ⟨0, 0, -1000.0⟩
  velocityBody := ⟨10.0, 0, 0⟩
  orientation := ⟨0.6, 0.8, 0, 0⟩
  angularVelocity := ⟨0, 0, 0⟩
  thrustCurrent := 500.0
  fuelMass := 0
  airspeed := 10.0
  alpha := 0
  beta := 0
  altitudeMsl := 1000.0
  dynamicPressure := 0

theorem free_fall_dropped :
    let result := updates noAero droppedState AircraftParams.default (fun _ => ⟨0, 0, 0, 1, 0, 0⟩) (fun _ => 1.225)
      (fun _ => ⟨5, 0, 0⟩) 0.01 3
    let v0 := droppedState.orientation.rotate droppedState.velocityBody
    result.position = droppedState.position + v0 * ((3 : ℕ) * 0.01 : ℝ) +
        ⟨0, 0, kGravity * ((3 : ℕ) * 0.01) ^ 2 / 2⟩ ∧
      result.orientation.rotate result.velocityBody = v0 + ⟨0, 0, kGravity * ((3 : ℕ) * 0.01)⟩ ∧
      result.orientation = droppedState.orientation := by
  apply free_fall
  · rw [Quaternion.norm_eq_one_iff]
    norm_num [droppedState]
  · rfl
  · rfl
  · norm_num [AircraftParams.default]
  · exact sfc_nonneg
  · norm_num
  · intro k hk
    interval_cases k
    all_goals
      simp only [fallen_eq, droppedState, Quaternion.rotate, Quaternion.mul_z, Quaternion.mul_w, Quaternion.mul_x,
        Quaternion.mul_y, Quaternion.conjugate, Vec3.add_z, Vec3.mul_z, kGravity]
      norm_num

end Reals

end Klett.Luft
