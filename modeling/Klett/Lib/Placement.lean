import Mathlib.Data.List.Nodup
import Mathlib.Logic.Function.Basic

/-!
Numbered things at places, each of them at one place and there once.
-/

namespace Klett.Lib

variable {π τ : Type*} {key : τ → ℕ} {n : ℕ} {held : π → List τ} {p q : π} {x y : τ} {rest : List τ} {P : τ → Prop}

/-- The things with a number below `n` are `held`. -/
structure Placement (key : τ → ℕ) (n : ℕ) (held : π → List τ) : Prop where
  bound : ∀ p, ∀ x ∈ held p, key x < n
  somewhere : ∀ k < n, ∃ p, ∃ x ∈ held p, key x = k
  apart : ∀ p q, ∀ x ∈ held p, ∀ y ∈ held q, key x = key y → p = q
  once : ∀ p, ((held p).map key).Nodup

namespace Placement

theorem eq (h : Placement key n held) (hx : x ∈ held p) (hy : y ∈ held q) (hkey : key x = key y) : p = q ∧ x = y := by
  obtain rfl := h.apart p q x hx y hy hkey
  exact ⟨rfl, List.inj_on_of_nodup_map (h.once p) hx hy hkey⟩

variable [DecidableEq π]

/-- A thing on its way from the front of one place to the end of another. -/
def move (held : π → List τ) (p q : π) (x : τ) (rest : List τ) : π → List τ :=
  Function.update (Function.update held p rest) q (held q ++ [x])

theorem mem_move (hp : held p = x :: rest) (hpq : p ≠ q) (r : π) :
    y ∈ move held p q x rest r ↔ r ≠ p ∧ y ∈ held r ∨ r = p ∧ y ∈ rest ∨ r = q ∧ y = x := by
  obtain rfl | hq := eq_or_ne r q
  · simp [move, hpq.symm]
  obtain rfl | hne := eq_or_ne r p
  · simp [move, hpq]
  · simp [move, hq, hne]

theorem forall_mem_move (hp : held p = x :: rest) (hpq : p ≠ q) :
    (∀ r, ∀ y ∈ move held p q x rest r, P y) ↔ ∀ r, ∀ y ∈ held r, P y := by
  simp only [mem_move hp hpq]
  constructor
  · intro h r y hy
    by_cases hr : r = p
    · rw [hr, hp] at hy
      obtain rfl | hrest := List.mem_cons.mp hy
      · exact h q y (.inr (.inr ⟨rfl, rfl⟩))
      · exact h p y (.inr (.inl ⟨rfl, hrest⟩))
    · exact h r y (.inl ⟨hr, hy⟩)
  · rintro h r y (⟨-, hy⟩ | ⟨rfl, hy⟩ | ⟨rfl, rfl⟩)
    · exact h r y hy
    · exact h r y (by rw [hp]; exact List.mem_cons_of_mem x hy)
    · exact h p y (by rw [hp]; exact List.mem_cons_self)

theorem moved (h : Placement key n held) (hp : held p = x :: rest) (hpq : p ≠ q) :
    Placement key n (move held p q x rest) := by
  have hx : x ∈ held p := by rw [hp]; exact List.mem_cons_self
  have honce := h.once p
  rw [hp, List.map_cons, List.nodup_cons] at honce
  constructor
  case bound => exact (forall_mem_move hp hpq).mpr h.bound
  case somewhere =>
    intro k hk
    by_contra hnot
    have hall : ∀ r, ∀ y ∈ move held p q x rest r, key y ≠ k := fun r y hy heq => hnot ⟨r, y, hy, heq⟩
    obtain ⟨r, y, hy, heq⟩ := h.somewhere k hk
    exact (forall_mem_move hp hpq).mp hall r y hy heq
  case apart =>
    -- Where a thing was before says where it is now, unless it is the one that moved.
    have hbefore {r : π} {y : τ} (hy : y ∈ move held p q x rest r) : r = q ∧ y = x ∨ y ∈ held r ∧ key y ≠ key x := by
      obtain ⟨hne, hold⟩ | ⟨rfl, hrest⟩ | hmoved := (mem_move hp hpq r).mp hy
      · exact .inr ⟨hold, fun heq => hne (h.apart r p y hold x hx heq)⟩
      · refine .inr ⟨by rw [hp]; exact List.mem_cons_of_mem x hrest, fun heq => honce.1 ?_⟩
        rw [← heq]
        exact List.mem_map_of_mem hrest
      · exact .inl hmoved
    intro r r' y hy y' hy' hkey
    obtain ⟨rfl, rfl⟩ | ⟨hold, hne⟩ := hbefore hy
    · obtain ⟨rfl, -⟩ | ⟨-, hne⟩ := hbefore hy'
      · rfl
      · exact absurd hkey.symm hne
    · obtain ⟨-, rfl⟩ | ⟨hold', -⟩ := hbefore hy'
      · exact absurd hkey hne
      · exact h.apart r r' y hold y' hold' hkey
  case once =>
    intro r
    obtain rfl | hq := eq_or_ne r q
    · rw [move, Function.update_self, List.map_append, List.map_singleton, ← List.concat_eq_append]
      refine (h.once r).concat fun hmem => ?_
      obtain ⟨y, hy, heq⟩ := List.mem_map.mp hmem
      exact hpq (h.apart p r x hx y hy heq.symm)
    · rw [move, Function.update_of_ne hq]
      obtain rfl | hne := eq_or_ne r p
      · rw [Function.update_self]
        exact honce.2
      · rw [Function.update_of_ne hne]
        exact h.once r

theorem forall_mem_update {l : List τ} :
    (∀ r, ∀ y ∈ Function.update held p l r, P y) ↔ (∀ y ∈ l, P y) ∧ ∀ r ≠ p, ∀ y ∈ held r, P y :=
  Function.forall_update_iff held fun _ l => ∀ y ∈ l, P y

theorem once_update (h : Placement key n held) (r : π) : ((Function.update held p [x] r).map key).Nodup := by
  obtain rfl | hne := eq_or_ne r p
  · rw [Function.update_self]
    exact List.nodup_singleton _
  · rw [Function.update_of_ne hne]
    exact h.once r

theorem replaced (h : Placement key n held) (hp : held p = [x]) (hkey : key y = key x) :
    Placement key n (Function.update held p [y]) := by
  have hx : x ∈ held p := by rw [hp]; exact List.mem_cons_self
  have hbefore {r : π} {z : τ} (hz : z ∈ Function.update held p [y] r) : ∃ w ∈ held r, key w = key z := by
    obtain rfl | hne := eq_or_ne r p
    · rw [Function.update_self, List.mem_singleton] at hz
      exact ⟨x, hx, by rw [hz, hkey]⟩
    · rw [Function.update_of_ne hne] at hz
      exact ⟨z, hz, rfl⟩
  constructor
  case bound =>
    intro r z hz
    obtain ⟨w, hw, heq⟩ := hbefore hz
    rw [← heq]
    exact h.bound r w hw
  case somewhere =>
    intro k hk
    obtain ⟨r, z, hz, heq⟩ := h.somewhere k hk
    obtain rfl | hne := eq_or_ne r p
    · rw [hp, List.mem_singleton] at hz
      refine ⟨r, y, by rw [Function.update_self]; exact List.mem_cons_self, ?_⟩
      rw [hkey, ← hz, heq]
    · exact ⟨r, z, by rw [Function.update_of_ne hne]; exact hz, heq⟩
  case apart =>
    intro r r' z hz z' hz' heq
    obtain ⟨w, hw, hwz⟩ := hbefore hz
    obtain ⟨w', hw', hwz'⟩ := hbefore hz'
    exact h.apart r r' w hw w' hw' (by rw [hwz, hwz', heq])
  case once => exact h.once_update

theorem fresh (h : Placement key n held) (hp : held p = []) (hkey : key x = n) :
    Placement key (n + 1) (Function.update held p [x]) := by
  have hbefore {r : π} {z : τ} (hz : z ∈ Function.update held p [x] r) : r = p ∧ z = x ∨ z ∈ held r ∧ key z < n := by
    obtain rfl | hne := eq_or_ne r p
    · rw [Function.update_self, List.mem_singleton] at hz
      exact .inl ⟨rfl, hz⟩
    · rw [Function.update_of_ne hne] at hz
      exact .inr ⟨hz, h.bound r z hz⟩
  constructor
  case bound =>
    intro r z hz
    obtain ⟨-, rfl⟩ | ⟨-, hlt⟩ := hbefore hz <;> omega
  case somewhere =>
    intro k hk
    obtain rfl | hne := eq_or_ne k n
    · exact ⟨p, x, by rw [Function.update_self]; exact List.mem_cons_self, hkey⟩
    · obtain ⟨r, z, hz, heq⟩ := h.somewhere k (by omega)
      have hr : r ≠ p := by
        rintro rfl
        rw [hp] at hz
        cases hz
      exact ⟨r, z, by rw [Function.update_of_ne hr]; exact hz, heq⟩
  case apart =>
    intro r r' z hz z' hz' heq
    obtain ⟨rfl, rfl⟩ | ⟨hold, hlt⟩ := hbefore hz
    · obtain ⟨rfl, -⟩ | ⟨-, hlt⟩ := hbefore hz'
      · rfl
      · omega
    · obtain ⟨-, rfl⟩ | ⟨hold', -⟩ := hbefore hz'
      · omega
      · exact h.apart r r' z hold z' hold' heq
  case once => exact h.once_update

end Placement

end Klett.Lib
