import Klett.Nash.PathFollower

namespace Klett.Nash.PathFollower

open Matrix

section Direction

variable {n : ℕ} (numerics : Numerics n) (sys : HomotopySystem n) (cfg : PathFollowerConfig) (w0 : Vec (n + 1))

inductive Visits : Follower n → Prop
  | start : Visits (start cfg w0)
  | next {f g : Follower n} : Visits f → turn numerics sys cfg f = .inr g → Visits g

def MovesForward : Prop :=
  ∀ f, Visits numerics sys cfg w0 f → ∀ sign tangent, Predicts numerics sys cfg f sign tangent →
    0 ≤ back tangent ∧ back f.w ≤ back (predict cfg f tangent)

/-- No prediction is made at the start point, or the vector taken from the kernel there does not point back. -/
def StartsForward : Prop :=
  cfg.maxSteps ≤ 0 ∨ cfg.targetT - 1 / 10 ^ 12 ≤ back w0 ∨
    ∀ v, selectTangent (numerics.kernel (sys.DH w0)) = some v → numerics.norm2 v < 1 / 10 ^ 15 ∨ 0 ≤ back v

structure PathFollowerConfig.Positive (cfg : PathFollowerConfig) : Prop where
  initialStep : 0 < cfg.initialStep
  minStep : 0 < cfg.minStep
  maxStep : 0 < cfg.maxStep
  stepIncrease : 0 < cfg.stepIncrease
  stepDecrease : 0 < cfg.stepDecrease

/-- Before the first success the follower is at the start point, and after it the direction is fixed. -/
structure Headed (w0 : Vec (n + 1)) (f : Follower n) : Prop where
  step : 0 < f.step
  counted : 0 ≤ f.s
  waiting : f.s = 0 → f.w = w0
  sign : f.s ≠ 0 → f.directionSign = 1

variable {numerics sys cfg w0} {f g : Follower n} {sign : ℤ} {tangent : Vec (n + 1)}

theorem orient_zero (h : f.s = 0) (v : Vec (n + 1)) : orient f.s f.directionSign v = (chooseDirection v, v) := if_pos h

theorem orient_ne_zero (h : f.s ≠ 0) (hsign : f.directionSign = 1) (v : Vec (n + 1)) :
    orient f.s f.directionSign v = (1, if back v < 0 then -v else v) := by
  rw [orient, if_neg h, hsign, Int.cast_one, mul_one]

theorem aim_ok (h : aim numerics sys f = .ok (sign, tangent)) :
    ∃ v, selectTangent (numerics.kernel (sys.DH f.w)) = some v ∧
      let oriented := orient f.s f.directionSign v
      sign = oriented.1 ∧ 1 / 10 ^ 15 ≤ numerics.norm2 oriented.2 ∧
        tangent = fun i => oriented.2 i / numerics.norm2 oriented.2 := by
  unfold aim at h
  cases hv : selectTangent (numerics.kernel (sys.DH f.w)) with
  | none =>
    rw [hv] at h
    cases h
  | some v =>
    rw [hv] at h
    simp only at h
    split_ifs at h with htiny
    cases h
    exact ⟨v, rfl, rfl, not_lt.mp htiny, rfl⟩

theorem back_scaled {v : Vec (n + 1)} {r : ℚ} (hr : 1 / 10 ^ 15 ≤ r) : 0 ≤ back (fun i => v i / r) ↔ 0 ≤ back v := by
  have hpos : 0 < r := lt_of_lt_of_le (by norm_num) hr
  change 0 ≤ back v / r ↔ 0 ≤ back v
  rw [le_div_iff₀ hpos, zero_mul]

theorem Headed.nonneg (h : Headed w0 f) (hstart : StartsForward numerics sys cfg w0)
    (hp : Predicts numerics sys cfg f sign tangent) : 0 ≤ back tangent ∧ sign = 1 := by
  obtain ⟨v, hv, hsign, hnorm, rfl⟩ := aim_ok hp.aimed
  by_cases hs : f.s = 0
  · rw [orient_zero hs] at hsign hnorm ⊢
    have hw := h.waiting hs
    have hback : 0 ≤ back v := by
      obtain hnone | hreached | hall := hstart
      · have := hp.running
        omega
      · rw [← hw] at hreached
        exact absurd hp.short (not_lt.mpr hreached)
      · rw [hw] at hv
        exact (hall v hv).resolve_left (not_lt.mpr hnorm)
    exact ⟨(back_scaled hnorm).mpr hback, hsign.trans (if_pos hback)⟩
  · rw [orient_ne_zero hs (h.sign hs)] at hsign hnorm ⊢
    refine ⟨(back_scaled hnorm).mpr ?_, hsign⟩
    simp only
    split_ifs with hneg
    · change 0 ≤ -back v
      linarith
    · exact not_lt.mp hneg

theorem effectiveStep_pos (hpos : cfg.Positive) (hstep : 0 < f.step) (tangent : Vec (n + 1)) :
    0 < effectiveStep cfg f tangent := by
  unfold effectiveStep
  split_ifs
  · exact lt_max_of_lt_right hpos.minStep
  · exact hstep

theorem back_predict (f : Follower n) (tangent : Vec (n + 1)) :
    back (predict cfg f tangent) = back f.w + effectiveStep cfg f tangent * back tangent := rfl

theorem Headed.start (hpos : cfg.Positive) : Headed w0 (start cfg w0) where
  step := hpos.initialStep
  counted := le_rfl
  waiting _ := rfl
  sign h := absurd rfl h

theorem Headed.next (h : Headed w0 f) (hpos : cfg.Positive) (hstart : StartsForward numerics sys cfg w0)
    (hturn : turn numerics sys cfg f = .inr g) : Headed w0 g := by
  obtain ⟨hadvances, -, tangent, hp⟩ := turn_inr hturn
  have hsign : g.directionSign = 1 := (h.nonneg hstart hp).2
  have hcounted := h.counted
  cases hadvances with
  | success hs hstep =>
    constructor
    · rw [hstep]
      exact lt_min (mul_pos h.step hpos.stepIncrease) hpos.maxStep
    · omega
    · intro hzero
      omega
    · exact fun _ => hsign
  | failure hs hw hstep hmin =>
    constructor
    · exact hpos.minStep.trans_le hmin
    · omega
    · intro hzero
      rw [hw]
      exact h.waiting (hs.symm.trans hzero)
    · exact fun _ => hsign

theorem Visits.headed (hpos : cfg.Positive) (hstart : StartsForward numerics sys cfg w0)
    (hv : Visits numerics sys cfg w0 f) : Headed w0 f := by
  induction hv with
  | start => exact .start hpos
  | next _ hturn ih => exact ih.next hpos hstart hturn

theorem movesForward_iff (hpos : cfg.Positive) :
    MovesForward numerics sys cfg w0 ↔ StartsForward numerics sys cfg w0 := by
  constructor
  · intro hforward
    by_contra hnot
    unfold StartsForward at hnot
    push Not at hnot
    obtain ⟨hrunning, hshort, v, hv, hnorm, hback⟩ := hnot
    have hp : Predicts numerics sys cfg (PathFollower.start cfg w0) (chooseDirection v)
        (fun i => v i / numerics.norm2 v) := by
      refine ⟨hrunning, hshort, ?_⟩
      unfold aim
      rw [show (PathFollower.start cfg w0).w = w0 from rfl, hv]
      exact if_neg (not_lt.mpr hnorm)
    have hnonneg := (hforward _ .start _ _ hp).1
    exact absurd ((back_scaled hnorm).mp hnonneg) (not_le.mpr hback)
  · intro hstart f hf sign tangent hp
    have hheaded := hf.headed hpos hstart
    have hnonneg := (hheaded.nonneg hstart hp).1
    refine ⟨hnonneg, ?_⟩
    rw [back_predict]
    have hstep := effectiveStep_pos hpos hheaded.step tangent
    exact le_add_of_nonneg_right (mul_nonneg hstep.le hnonneg)

end Direction

section Signs

variable {n : ℕ} {numerics : Numerics n} {sys : HomotopySystem n} {cfg : PathFollowerConfig} {w0 : Vec (n + 1)}
  {f : Follower n} {v v' : Vec (n + 1)} {rest rest' : List (Vec (n + 1))}

def Flipped (v v' : Vec (n + 1)) : Prop := v' = v ∨ v' = -v

theorem Flipped.abs_back (h : Flipped v v') : |back v'| = |back v| := by
  obtain rfl | rfl := h
  · rfl
  · exact abs_neg (back v)

theorem Flipped.norm2 (h : Flipped v v') : numerics.norm2 v' = numerics.norm2 v := by
  obtain rfl | rfl := h
  · rfl
  · rw [Numerics.norm2, neg_dotProduct_neg]
    rfl

/-- Some vector moves in `t`, so that `follow_path` neither adds vectors up nor follows one on which `t` stays. -/
def Steep (ns : List (Vec (n + 1))) : Prop := ∃ v ∈ ns, 1 / 10 ^ 14 ≤ |back v|

theorem steepest_flipped (hfirst : Flipped v v') (hrest : List.Forall₂ Flipped rest rest') :
    (steepest v' rest').1 = (steepest v rest).1 ∧ Flipped (steepest v rest).2 (steepest v' rest').2 := by
  have hloop : ∀ best best' : ℚ × Vec (n + 1), best'.1 = best.1 ∧ Flipped best.2 best'.2 →
      (rest'.foldl (fun best u => if best.1 < |back u| then (|back u|, u) else best) best').1 =
        (rest.foldl (fun best u => if best.1 < |back u| then (|back u|, u) else best) best).1 ∧
      Flipped (rest.foldl (fun best u => if best.1 < |back u| then (|back u|, u) else best) best).2
        (rest'.foldl (fun best u => if best.1 < |back u| then (|back u|, u) else best) best').2 := by
    induction hrest with
    | nil => exact fun _ _ h => h
    | cons hu _ ih =>
      intro best best' h
      apply ih
      dsimp only
      rw [hu.abs_back, h.1]
      split_ifs
      · exact ⟨rfl, hu⟩
      · exact h
  apply hloop
  exact ⟨hfirst.abs_back, hfirst⟩

theorem steepest_spec (v : Vec (n + 1)) (rest : List (Vec (n + 1))) :
    (steepest v rest).1 = |back (steepest v rest).2| ∧ ∀ u ∈ v :: rest, |back u| ≤ (steepest v rest).1 := by
  have hgreatest : |back v| ≤ (steepest v rest).1 ∧ (∀ u ∈ rest, |back u| ≤ (steepest v rest).1) ∧
      (steepest v rest = (|back v|, v) ∨ ∃ u ∈ rest, steepest v rest = (|back u|, u)) :=
    foldl_greatest (fun u : Vec (n + 1) => |back u|) rest (|back v|, v)
  obtain ⟨hfirst, hrest, hfound⟩ := hgreatest
  constructor
  · obtain heq | ⟨u, -, heq⟩ := hfound
    · rw [heq]
    · rw [heq]
  · rw [List.forall_mem_cons]
    exact ⟨hfirst, hrest⟩

theorem selectTangent_flipped {ns ns' : List (Vec (n + 1))} (h : List.Forall₂ Flipped ns ns') (hsteep : Steep ns) :
    ∃ v v', selectTangent ns = some v ∧ selectTangent ns' = some v' ∧ Flipped v v' ∧ back v ≠ 0 := by
  obtain ⟨u, hu, hback⟩ := hsteep
  have hpos : (0 : ℚ) < 1 / 10 ^ 14 := by norm_num
  cases h with
  | nil => cases hu
  | @cons v v' rest rest' hfirst hrest =>
    cases hrest with
    | nil =>
      obtain rfl := List.mem_singleton.mp hu
      exact ⟨u, v', rfl, rfl, hfirst, abs_pos.mp (hpos.trans_le hback)⟩
    | @cons w w' rest rest' hnext hrest =>
      obtain ⟨hsame, hflipped⟩ := steepest_flipped hfirst (.cons hnext hrest)
      obtain ⟨habs, hall⟩ := steepest_spec v (w :: rest)
      have hle : 1 / 10 ^ 14 ≤ (steepest v (w :: rest)).1 := hback.trans (hall u hu)
      refine ⟨(steepest v (w :: rest)).2, (steepest v' (w' :: rest')).2, ?_, ?_, hflipped, ?_⟩
      · exact congrArg some (if_neg (not_lt.mpr hle))
      · rw [← hsame] at hle
        exact congrArg some (if_neg (not_lt.mpr hle))
      · rw [habs] at hle
        exact abs_pos.mp (hpos.trans_le hle)

/-- Another basis that differs from this one in the signs of its vectors. -/
def Numerics.Turned (numerics turned : Numerics n) : Prop :=
  turned.sqrt = numerics.sqrt ∧ ∀ J f, |turned.scale J f| = |numerics.scale J f|

variable {turned : Numerics n}

theorem Numerics.Turned.kernel (h : numerics.Turned turned) (J : Matrix (Fin n) (Fin (n + 1)) ℚ) :
    List.Forall₂ Flipped (numerics.kernel J) (turned.kernel J) := by
  unfold Numerics.kernel nullSpace
  rw [List.forall₂_map_left_iff, List.forall₂_map_right_iff, List.forall₂_same]
  intro i _
  obtain hsame | hneg := abs_eq_abs.mp (h.2 J i)
  · left
    rw [hsame]
  · right
    rw [hneg, neg_smul]

theorem Numerics.Turned.norm2 (h : numerics.Turned turned) : turned.norm2 = numerics.norm2 := by
  funext v
  rw [Numerics.norm2, Numerics.norm2, h.1]

theorem turn_congr (h : f.s < cfg.maxSteps → back f.w < cfg.targetT - 1 / 10 ^ 12 →
    aim turned sys f = aim numerics sys f) : turn turned sys cfg f = turn numerics sys cfg f := by
  unfold turn
  split_ifs with hs ht
  · rfl
  · have haim : aim turned sys { f with totalSteps := f.s + 1 } = aim numerics sys { f with totalSteps := f.s + 1 } :=
      h hs (not_le.mp ht)
    simp only [haim]
  · rfl

theorem orient_flipped (hne : back v ≠ 0) :
    (if back (-v) < 0 then - -v else -v) = if back v < 0 then -v else v := by
  have hback : back (-v) = -back v := rfl
  obtain hneg | hpos := hne.lt_or_gt
  · have hnot : ¬back (-v) < 0 := by linarith
    rw [if_pos hneg, if_neg hnot]
  · have hneg : back (-v) < 0 := by linarith
    rw [if_neg hpos.not_gt, if_pos hneg, neg_neg]

theorem Headed.aim_eq (h : Headed w0 f) (hturned : numerics.Turned turned)
    (hstart : StartsForward numerics sys cfg w0) (hstart' : StartsForward turned sys cfg w0)
    (hsteep : Steep (numerics.kernel (sys.DH f.w))) (hs : f.s < cfg.maxSteps)
    (ht : back f.w < cfg.targetT - 1 / 10 ^ 12) : aim turned sys f = aim numerics sys f := by
  obtain ⟨v, v', hv, hv', hflipped, hne⟩ := selectTangent_flipped (hturned.kernel (sys.DH f.w)) hsteep
  unfold aim
  rw [hv, hv']
  simp only [hturned.norm2]
  obtain rfl | rfl := hflipped
  · rfl
  by_cases hzero : f.s = 0
  · rw [orient_zero hzero, orient_zero hzero]
    have hnorm : numerics.norm2 (-v) = numerics.norm2 v := Flipped.norm2 (.inr rfl)
    simp only [hnorm]
    split_ifs with htiny
    · rfl
    · exfalso
      have hw := h.waiting hzero
      rw [hw] at hv hv' ht
      have hup := ((hstart.resolve_left (by omega)).resolve_left (not_le.mpr ht) v hv).resolve_left htiny
      have hdown := ((hstart'.resolve_left (by omega)).resolve_left (not_le.mpr ht) (-v) hv').resolve_left
        (by rwa [hturned.norm2, hnorm])
      have hdown : 0 ≤ -back v := hdown
      exact hne (le_antisymm (neg_nonneg.mp hdown) hup)
  · rw [orient_ne_zero hzero (h.sign hzero), orient_ne_zero hzero (h.sign hzero)]
    rw [orient_flipped hne]

theorem signs_do_not_matter (hpos : cfg.Positive) (hturned : numerics.Turned turned)
    (hstart : StartsForward numerics sys cfg w0) (hstart' : StartsForward turned sys cfg w0)
    (hsteep : ∀ f, Visits numerics sys cfg w0 f → Steep (numerics.kernel (sys.DH f.w))) (fuel : ℕ) :
    followPath turned sys cfg w0 fuel = followPath numerics sys cfg w0 fuel := by
  have hloop : ∀ f, Visits numerics sys cfg w0 f → loop turned sys cfg fuel f = loop numerics sys cfg fuel f := by
    induction fuel with
    | zero => exact fun _ _ => rfl
    | succ fuel ih =>
      intro f hf
      have hsame : turn turned sys cfg f = turn numerics sys cfg f :=
        turn_congr fun hs ht => (hf.headed hpos hstart).aim_eq hturned hstart hstart' (hsteep f hf) hs ht
      cases hturn : turn numerics sys cfg f with
      | inl result => rw [loop_inl hturn, loop_inl (hsame.trans hturn)]
      | inr next =>
        rw [loop_inr hturn, loop_inr (hsame.trans hturn)]
        exact ih next (hf.next hturn)
  exact hloop _ .start

end Signs

section Results

variable {n : ℕ}

/-- The signs of the kernel vectors do not matter as long as both bases let the follower start forward and no kernel
on the way lies in a plane of one `t`. -/
theorem moves_forward_iff (numerics : Numerics n) (sys : HomotopySystem n) {cfg : PathFollowerConfig} (w0 : Vec (n + 1))
    (hpos : cfg.Positive) :
    (MovesForward numerics sys cfg w0 ↔ StartsForward numerics sys cfg w0) ∧
      ∀ turned, numerics.Turned turned → StartsForward numerics sys cfg w0 → StartsForward turned sys cfg w0 →
        (∀ f, Visits numerics sys cfg w0 f → Steep (numerics.kernel (sys.DH f.w))) →
          ∀ fuel, followPath turned sys cfg w0 fuel = followPath numerics sys cfg w0 fuel :=
  ⟨movesForward_iff hpos, fun _ hturned hstart hstart' hsteep => signs_do_not_matter hpos hturned hstart hstart' hsteep⟩

theorem positive_default : ({} : PathFollowerConfig).Positive where
  initialStep := by norm_num
  minStep := by norm_num
  maxStep := by norm_num
  stepIncrease := by norm_num
  stepDecrease := by norm_num

def turnedNumerics : Numerics 1 where
  sqrt := Rat.sqrt
  scale _ _ := -4 / 5

theorem kernel_line : lineNumerics.kernel (line.DH 0) = [![4 / 5, -3 / 5]] := by decide +kernel

theorem kernel_turned : turnedNumerics.kernel (line.DH 0) = [![-4 / 5, 3 / 5]] := by decide +kernel

theorem moves_forward_turned : ({} : PathFollowerConfig).Positive ∧ StartsForward turnedNumerics line {} 0 ∧
    MovesForward turnedNumerics line {} 0 := by
  have hstart : StartsForward turnedNumerics line {} 0 := by
    refine .inr (.inr fun v hv => ?_)
    rw [kernel_turned] at hv
    obtain rfl := Option.some.inj hv
    right
    change (0 : ℚ) ≤ 3 / 5
    norm_num
  exact ⟨positive_default, hstart, (moves_forward_iff turnedNumerics line 0 positive_default).1.mpr hstart⟩

/-- One step on the line, with the vector as `null_space` scales it and with its opposite. -/
theorem line_followed_back :
    ({} : PathFollowerConfig).Positive ∧ lineNumerics.Turned turnedNumerics ∧ ¬MovesForward lineNumerics line {} 0 ∧
      (followPath lineNumerics line { maxSteps := 1 } 0 2).map PathResult.tFinal = some (-3 / 500) ∧
        (followPath turnedNumerics line { maxSteps := 1 } 0 2).map PathResult.tFinal = some (3 / 500) := by
  refine ⟨positive_default, ⟨rfl, fun _ _ => ?_⟩, fun hforward => ?_, by decide +kernel, by decide +kernel⟩
  · change |(-4 / 5 : ℚ)| = |4 / 5|
    norm_num
  · obtain hnone | hreached | hall := (movesForward_iff positive_default).mp hforward
    · exact absurd hnone (by decide)
    · exact absurd hreached (by decide +kernel)
    · have hv : selectTangent (lineNumerics.kernel (line.DH 0)) = some ![4 / 5, -3 / 5] := by
        rw [kernel_line]
        rfl
      obtain htiny | hback := hall _ hv
      · exact absurd htiny (by decide +kernel)
      · exact absurd hback (by decide +kernel)

end Results

end Klett.Nash.PathFollower
